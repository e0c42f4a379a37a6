import FieldFlow.Proofs.Initializers.Run
import FieldFlow.Proofs.State.Names
import FieldFlow.Proofs.Value.Occurs

/-!
# Analysis of initializing constructors

Which constructors that only assign expressions to fields are accepted, and with which mapping.

## Main Definitions

* `Tree.PassesOn`: the tree is a parameter, up to boxing or unboxing
* `Tree.Derived`: a parameter occurs in the tree, which does not pass it on

## Main Statements

* `Tree.verdict_eq_bound_iff`, `Tree.verdict_eq_derived_iff`: the verdicts on trees
* `Initializers.sameOutcome_analyze_constructor`: the analysis has the outcome of the verdicts on
  what the expressions stand for
* `Initializers.analyze_constructor`: the analysis reports the first derived field, and maps the
  other fields to the parameters that are passed on to them
-/

namespace FieldFlow

/-! ### Verdicts on trees -/

namespace Tree

/-- The tree is a parameter, or nothing but the boxing or unboxing of one. -/
inductive PassesOn : Tree → Binding → Prop
  | parameter (index : Nat) (kind : Kind) : PassesOn (.parameter index kind) ⟨index, kind⟩
  | boxed (index : Nat) (kind : Kind) {owner name : String}
      (boxing : Boxing.isBoxing owner name = true) :
      PassesOn (.staticCall owner name [.parameter index kind]) ⟨index, kind⟩
  | unboxed (index : Nat) {kind : Kind} {name : String}
      (unboxing : Boxing.isUnboxing kind name = true) :
      PassesOn (.methodCall (.parameter index kind) name []) ⟨index, kind⟩

/-- A parameter occurs in the tree, at any depth. -/
def Mentions (tree : Tree) : Prop :=
  ∃ index kind, (Value.parameter index kind).Occurs tree.toValue

/-- The tree is computed from a parameter, and not only a parameter that is passed on. -/
structure Derived (tree : Tree) : Prop where
  mentions : tree.Mentions
  notPassedOn : ∀ binding, ¬ tree.PassesOn binding

variable {tree : Tree} {binding : Binding}

theorem toValue_eq_parameter_iff {index : Nat} {kind : Kind} :
    tree.toValue = .parameter index kind ↔ tree = .parameter index kind := by
  cases tree <;> simp [toValue]

/-- The verdicts on trees look for the parameters that are passed on. -/
theorem binding?_toValue_iff :
    Verdict.binding? .empty tree.toValue = some binding ↔ tree.PassesOn binding := by
  constructor
  · intro h
    cases tree with
    | parameter index kind =>
      rw [toValue, Verdict.binding?] at h
      cases h
      exact .parameter index kind
    | staticCall owner name args =>
      rcases args with _ | ⟨arg, _ | ⟨second, more⟩⟩
      case cons.nil =>
        rw [toValue, List.map_cons, List.map_nil, Verdict.binding?, resolve_toValue] at h
        split at h
        next hboxing =>
          obtain rfl := toValue_eq_parameter_iff.1 (Verdict.parameter?_eq_some_iff.1 h)
          exact .boxed _ _ hboxing
        next => cases h
      all_goals
        rw [toValue] at h
        cases h
    | methodCall receiver name args =>
      cases args with
      | nil =>
        rw [toValue, List.map_nil, Verdict.binding?, resolve_toValue,
          Option.filter_eq_some_iff] at h
        obtain rfl := toValue_eq_parameter_iff.1 (Verdict.parameter?_eq_some_iff.1 h.1)
        exact .unboxed _ h.2
      | cons arg args =>
        rw [toValue] at h
        cases h
    | _ =>
      rw [toValue] at h
      cases h
  · intro h
    cases h with
    | parameter index kind => rw [toValue, Verdict.binding?]
    | boxed index kind boxing =>
      rw [toValue, List.map_cons, List.map_nil, Verdict.binding?, if_pos boxing, resolve_toValue,
        toValue, Verdict.parameter?]
    | unboxed index unboxing =>
      rw [toValue, List.map_nil, Verdict.binding?, resolve_toValue, toValue, Verdict.parameter?,
        Option.filter_eq_some_iff]
      exact ⟨rfl, unboxing⟩

theorem verdict_eq_bound_iff :
    Verdict.of .empty tree.toValue = .bound binding ↔ tree.PassesOn binding :=
  Verdict.of_eq_bound_iff.trans binding?_toValue_iff

/-- **The verdict on a tree is that it is derived iff it is.** -/
theorem verdict_eq_derived_iff : Verdict.of .empty tree.toValue = .derived ↔ tree.Derived := by
  have hmentions : Cells.empty.dependsOnParameter tree.toValue = true ↔ tree.Mentions := by
    rw [Cells.dependsOnParameter_empty, Value.mentionsParameter_iff_occurs]
    rfl
  rw [Verdict.of]
  cases hbinding : Verdict.binding? .empty tree.toValue with
  | some binding =>
    constructor
    · intro h
      cases h
    · intro h
      exact absurd (binding?_toValue_iff.1 hbinding) (h.notPassedOn binding)
  | none =>
    have hnone : ∀ binding, ¬ tree.PassesOn binding := by
      intro binding hpasses
      rw [binding?_toValue_iff.2 hpasses] at hbinding
      cases hbinding
    dsimp only
    split
    next hdepends => exact iff_of_true rfl ⟨hmentions.1 hdepends, hnone⟩
    next hfree =>
      constructor
      · intro h
        cases h
      · intro h
        exact absurd (hmentions.2 h.mentions) hfree

end Tree

namespace Initializers

variable {parameters : List Kind} {declaringClass superclass initializer : String}
variable {assignments : List (Assignment parameters)} {options : Options}

/-! ### Outcomes -/

/-- The fields of a constructor, with what the expressions that are assigned to them stand for. -/
def described (initializer : String) (assignments : List (Assignment parameters)) :
    List (String × Value) :=
  assignments.map fun assignment => (assignment.field, (assignment.tree initializer).toValue)

/-- Descriptions have the verdicts of their trees. -/
theorem verdict_ne_derived
    (h : ∀ assignment ∈ assignments, ¬ (assignment.tree initializer).Derived) :
    ∀ assigned ∈ described initializer assignments,
      Verdict.of .empty (Cells.empty.resolve assigned.2) ≠ .derived := by
  intro assigned hmem
  obtain ⟨assignment, hassignment, rfl⟩ := List.mem_map.1 hmem
  rw [Tree.resolve_toValue]
  exact fun hderived => h assignment hassignment (Tree.verdict_eq_derived_iff.1 hderived)

/-- **The analysis has the outcome of the verdicts on what the expressions stand for.** -/
theorem sameOutcome_analyze_constructor
    (hslots : 1 + Kind.totalWidth parameters ≤ 65535)
    (hfields : (assignments.map (·.field)).Nodup)
    (hplain : ∀ assignment ∈ assignments,
      PlainCode ⟨declaringClass, superclass, options.initializer⟩ (assignment.code initializer))
    (hlimit : (constructor declaringClass superclass initializer assignments).instructions.length ≤
      options.maxInstructions) :
    SameOutcome (fun analysis mapping =>
        analysis.mapping.fields = mapping.fields ∧ analysis.parameterNames = none)
      ((constructor declaringClass superclass initializer assignments).analyze options)
      (Mapping.ofAssignments .empty (described initializer assignments)) := by
  obtain ⟨later, assigned, hrun, hassigned⟩ :=
    exists_run_constructor hslots hfields hplain hlimit
  have hunfolds : List.Forall₂ (fun value tree => value.1 = tree.1 ∧ Unfolds later value.2 tree.2)
      assigned
      (assignments.map fun assignment => (assignment.field, assignment.tree initializer)) :=
    List.forall₂_map_right_iff.2 (hassigned.imp fun _ _ h => ⟨h.field, h.unfolds⟩)
  have hmapping := sameOutcome_ofAssignments hunfolds
  rw [List.map_map] at hmapping
  rw [Body.analyze, hrun]
  refine hmapping.bind_pure ?_
  intro mapping plain hfields
  -- No instruction of the constructor names a parameter.
  exact ⟨hfields, State.parameterNames_initial parameters⟩

/-- **Initializing constructors are analyzed exactly.** A constructor that only assigns expressions
to different fields is rejected for the first field whose expression stands for something that is
derived from a parameter. If there is none, it is accepted, and the fields in its mapping are those
to which a parameter is passed on. -/
theorem analyze_constructor (declaringClass superclass initializer : String)
    (assignments : List (Assignment parameters)) (options : Options)
    (hslots : (constructor declaringClass superclass initializer assignments).parameterSlots ≤
      65535)
    (hfields : (assignments.map (·.field)).Nodup)
    (hplain : ∀ assignment ∈ assignments,
      PlainCode ⟨declaringClass, superclass, options.initializer⟩ (assignment.code initializer))
    (hlimit : (constructor declaringClass superclass initializer assignments).instructions.length ≤
      options.maxInstructions) :
    (∀ before assignment after, assignments = before ++ assignment :: after →
      (∀ earlier ∈ before, ¬ (earlier.tree initializer).Derived) →
      (assignment.tree initializer).Derived →
      ∃ text, (constructor declaringClass superclass initializer assignments).analyze options =
        .error (.derivedValue assignment.field text)) ∧
    ((∀ assignment ∈ assignments, ¬ (assignment.tree initializer).Derived) →
      ∃ analysis,
        (constructor declaringClass superclass initializer assignments).analyze options =
          .ok analysis ∧
        analysis.parameterNames = none ∧
        ∀ field binding, analysis.mapping.fields.get? field = some binding ↔
          ∃ assignment ∈ assignments, assignment.field = field ∧
            (assignment.tree initializer).PassesOn binding) := by
  rw [constructor_eq, Body.parameterSlots] at hslots
  have houtcome := sameOutcome_analyze_constructor hslots hfields hplain hlimit
  constructor
  · rintro before assignment after rfl hbefore hderived
    rw [described, List.map_append, List.map_cons] at houtcome
    refine houtcome.exists_of_eq_derived (Mapping.ofAssignments_eq_error ?_ ?_)
    · exact verdict_ne_derived hbefore
    · rw [Tree.resolve_toValue]
      exact Tree.verdict_eq_derived_iff.2 hderived
  · intro hnone
    obtain ⟨mapping, hmapping⟩ := Mapping.exists_ofAssignments_eq_ok (verdict_ne_derived hnone)
    obtain ⟨analysis, hanalyze, hsame, hnames⟩ := houtcome.exists_of_eq_ok hmapping
    have hnodup : ((described initializer assignments).map (·.1)).Nodup := by
      rw [described, List.map_map]
      exact hfields
    refine ⟨analysis, hanalyze, hnames, ?_⟩
    intro field binding
    rw [hsame, Mapping.get?_eq_some_iff hmapping hnodup]
    constructor
    · rintro ⟨value, hassigned, hbound⟩
      obtain ⟨assignment, hassignment, heq⟩ := List.mem_map.1 hassigned
      cases heq
      rw [Tree.resolve_toValue] at hbound
      exact ⟨assignment, hassignment, rfl, Tree.verdict_eq_bound_iff.1 hbound⟩
    · rintro ⟨assignment, hassignment, rfl, hpasses⟩
      refine ⟨_, List.mem_map_of_mem hassignment, ?_⟩
      rw [Tree.resolve_toValue]
      exact Tree.verdict_eq_bound_iff.2 hpasses

/-- Assignments of a parameter in a wrapper, of a parameter, and of a new object. -/
def journalFields : List (Assignment [.long, .reference "java.lang.String"]) := [
  ⟨"start", .staticCall "java.lang.Long" "valueOf" (.cons .long (.parameter 0) .nil)
    (.reference "java.lang.Long")⟩,
  ⟨"title", .parameter 1⟩,
  ⟨"entries", .new "java.util.ArrayList" (.cons .int (.int 16) .nil)⟩]

theorem analyze_constructor_journalFields :
    ∃ analysis,
      (constructor "Journal" "java.lang.Object" "<init>" journalFields).analyze {} = .ok analysis ∧
      analysis.parameterNames = none ∧
      analysis.mapping.fields.get? "start" = some ⟨0, .long⟩ ∧
      analysis.mapping.fields.get? "title" = some ⟨1, .reference "java.lang.String"⟩ ∧
      ∀ binding, analysis.mapping.fields.get? "entries" ≠ some binding := by
  have hplain : ∀ assignment ∈ journalFields,
      PlainCode ⟨"Journal", "java.lang.Object", "<init>"⟩ (assignment.code "<init>") := by
    intro assignment hassignment
    simp only [journalFields, List.mem_cons, List.not_mem_nil, or_false] at hassignment
    rcases hassignment with rfl | rfl | rfl <;>
      simp [PlainCode, plain_iff, Machine.Delegates, Assignment.code, Expr.code, Args.code]
  have hstart : (Tree.staticCall "java.lang.Long" "valueOf" [.parameter 0 .long]).PassesOn
      ⟨0, .long⟩ := .boxed 0 .long (by decide)
  have hentries : ¬ (Tree.methodCall (.new "java.util.ArrayList") "<init>" [.int 16]).Mentions := by
    rw [Tree.Mentions, ← Value.mentionsParameter_iff_occurs]
    simp [Tree.toValue, Value.mentionsParameter_methodCall, Value.mentionsParameter]
  have hnone : ∀ assignment ∈ journalFields, ¬ (assignment.tree "<init>").Derived := by
    intro assignment hassignment hderived
    simp only [journalFields, List.mem_cons, List.not_mem_nil, or_false] at hassignment
    rcases hassignment with rfl | rfl | rfl
    · exact hderived.notPassedOn _ hstart
    · exact hderived.notPassedOn _ (.parameter 1 (.reference "java.lang.String"))
    · exact hentries hderived.mentions
  obtain ⟨-, haccepted⟩ := analyze_constructor "Journal" "java.lang.Object" "<init>"
    journalFields {} (by decide) (by decide) hplain (by decide)
  obtain ⟨analysis, hanalyze, hnames, hfields⟩ := haccepted hnone
  refine ⟨analysis, hanalyze, hnames, ?_, ?_, ?_⟩
  · exact (hfields _ _).2 ⟨_, List.mem_cons_self, rfl, hstart⟩
  · exact (hfields _ _).2 ⟨_, .tail _ List.mem_cons_self, rfl, .parameter 1 _⟩
  · intro binding hbound
    obtain ⟨assignment, hassignment, hfield, hpasses⟩ := (hfields _ _).1 hbound
    simp only [journalFields, List.mem_cons, List.not_mem_nil, or_false] at hassignment
    rcases hassignment with rfl | rfl | rfl
    · simp at hfield
    · simp at hfield
    · cases hpasses

end Initializers

end FieldFlow
