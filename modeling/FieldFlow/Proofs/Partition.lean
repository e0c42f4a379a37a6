import FieldFlow.Proofs.State.Operations
import FieldFlow.Proofs.Table
import FieldFlow.Proofs.Verdict

/-!
# The partition of assigned fields

Which states have a mapping, and what it says, without the functions that look for parameters: every
assigned value passes a parameter on or leads to none, and a mapping has the former.

## Main Definitions

* `Cells.StandsFor`: the value at the end of a chain of references
* `Cells.PassesOn`: a value is a parameter, boxed, unboxed or as it is
* `Cells.Accounted`: a value passes a parameter on, or leads to none

## Main Statements

* `State.WellFormed.passesOn_iff`: what is passed on is what the verdict looks for
* `Cells.PassesOn.reaches_iff`: a value that passes a parameter on leads to no other parameter
* `State.Performs.assigned_nodup`: operations assign a field once
* `Mapping.names_perm`: every field with a binding has an entry of its own
* `Mapping.ofState_partitions`: the mapping of every state that operations lead to

## Design Notes

A chain of references is followed here to its end, while the machine looks into one cell only. That
this is enough is where well-formed states come in: no cell of theirs holds a bare reference.
-/

namespace FieldFlow

/-! ### What is passed on -/

namespace Cells

variable {cells : Cells} {value target : Value} {binding : Binding} {index : Nat} {kind : Kind}

/-- Following references from the value, as long as there are any, leads to the target. -/
inductive StandsFor (cells : Cells) : Value → Value → Prop
  | direct {value : Value} (h : value.isRef = false) : StandsFor cells value value
  | ref {cell : CellId} {target : Value} (h : StandsFor cells (cells.content cell) target) :
      StandsFor cells (.ref cell) target

/-- The value stands for the parameter, for the boxing of something that does, or for the unboxing
of something that does by the accessor of the parameter's kind. -/
inductive PassesOn (cells : Cells) (binding : Binding) (value : Value) : Prop
  | parameter (h : cells.StandsFor value (.parameter binding.parameter binding.kind))
  | boxed {owner name : String} {arg : Value}
      (h : cells.StandsFor value (.staticCall owner name [arg]))
      (boxing : Boxing.isBoxing owner name = true)
      (passed : cells.StandsFor arg (.parameter binding.parameter binding.kind))
  | unboxed {receiver : Value} {name : String}
      (h : cells.StandsFor value (.methodCall receiver name []))
      (unboxing : Boxing.isUnboxing binding.kind name = true)
      (passed : cells.StandsFor receiver (.parameter binding.parameter binding.kind))

/-- The value passes a parameter on, or no parameter can be reached from it. -/
def Accounted (cells : Cells) (value : Value) : Prop :=
  (∃ binding, cells.PassesOn binding value) ∨ ¬ cells.ReachesParameter value

/-- What a value stands for can be reached from it. -/
theorem StandsFor.reaches (h : cells.StandsFor value target) : cells.Reaches value target := by
  induction h with
  | direct => exact .refl _
  | ref _ ih => exact .head (.content _) ih

/-- A value leads to a parameter only through what it stands for. -/
theorem StandsFor.reaches_parameter_iff (h : cells.StandsFor value target) :
    cells.Reaches value (.parameter index kind) ↔ cells.Reaches target (.parameter index kind) := by
  induction h with
  | direct => exact Iff.rfl
  | @ref cell target h ih => exact Verdict.reaches_parameter_resolve.symm.trans ih

/-- Anything but a reference stands for itself. -/
theorem StandsFor.eq_of_direct (h : cells.StandsFor value target) (direct : value.isRef = false) :
    value = target := by
  cases h with
  | direct => rfl
  | ref => cases direct

/-- A parameter leads to itself only. -/
theorem reaches_parameter_iff_eq :
    cells.Reaches (.parameter binding.parameter binding.kind) (.parameter index kind) ↔
      binding = ⟨index, kind⟩ := by
  constructor
  · intro h
    rcases Relation.ReflTransGen.cases_head h with heq | ⟨_, step, _⟩
    · cases heq
      rfl
    · cases step with
      | operand mem => cases mem
  · rintro rfl
    exact .refl _

/-- A call with one operand leads to the parameters to which the operand leads. -/
theorem reaches_parameter_iff_operand (call : Value) {operand : Value}
    (direct : call.isRef = false) (foreign : call ≠ .parameter index kind)
    (hoperands : call.operands = [operand]) :
    cells.Reaches call (.parameter index kind) ↔ cells.Reaches operand (.parameter index kind) := by
  constructor
  · intro h
    rcases Relation.ReflTransGen.cases_head h with heq | ⟨child, step, h⟩
    · exact absurd heq foreign
    · cases step with
      | operand mem =>
        rw [hoperands, List.mem_singleton] at mem
        exact mem ▸ h
      | content => cases direct
  · intro h
    refine .head (.operand ?_) h
    rw [hoperands]
    exact List.mem_cons_self

/-- **A value that passes a parameter on leads to this parameter and to no other.** -/
theorem PassesOn.reaches_iff (h : cells.PassesOn binding value) :
    cells.Reaches value (.parameter index kind) ↔ binding = ⟨index, kind⟩ := by
  cases h with
  | parameter h => rw [h.reaches_parameter_iff, reaches_parameter_iff_eq]
  | @boxed owner name arg h _ passed =>
    rw [h.reaches_parameter_iff,
      reaches_parameter_iff_operand (.staticCall owner name [arg]) rfl nofun rfl,
      passed.reaches_parameter_iff, reaches_parameter_iff_eq]
  | @unboxed receiver name h _ passed =>
    rw [h.reaches_parameter_iff,
      reaches_parameter_iff_operand (.methodCall receiver name []) rfl nofun rfl,
      passed.reaches_parameter_iff, reaches_parameter_iff_eq]

/-- A value that is accounted for passes on every parameter to which it leads. -/
theorem Accounted.reaches_iff (h : cells.Accounted value) :
    cells.Reaches value (.parameter index kind) ↔ cells.PassesOn ⟨index, kind⟩ value := by
  constructor
  · intro hreach
    rcases h with ⟨binding, hpasses⟩ | hfree
    · exact hpasses.reaches_iff.1 hreach ▸ hpasses
    · exact absurd ⟨index, kind, hreach⟩ hfree
  · exact fun hpasses => hpasses.reaches_iff.2 rfl

end Cells

/-! ### Verdicts in well-formed states -/

namespace State

variable {state last : State} {operations : List Operation} {value target : Value}
variable {binding : Binding}

/-- **One look into a cell is enough**: what it yields is what the value stands for. -/
theorem WellFormed.standsFor_iff (h : state.WellFormed)
    (hscoped : value.Scoped state.cells.size) :
    state.cells.StandsFor value target ↔ state.cells.resolve value = target := by
  have hdirect := h.direct.isRef_resolve hscoped
  constructor
  · intro hstands
    cases hstands with
    | direct hvalue => exact Cells.resolve_of_isRef_eq_false hvalue
    | ref hcontent => exact hcontent.eq_of_direct hdirect
  · rintro rfl
    cases value with
    | ref cell => exact .ref (.direct hdirect)
    | _ => exact .direct rfl

/-- **What a value passes on is what the verdict looks for.** -/
theorem WellFormed.passesOn_iff (h : state.WellFormed) (hscoped : value.Scoped state.cells.size) :
    state.cells.PassesOn binding value ↔
      Verdict.binding? state.cells (state.cells.resolve value) = some binding := by
  -- The operand of a boxing or an unboxing mentions only existing cells, too.
  have hoperand : ∀ {node operand}, state.cells.resolve value = node → operand ∈ node.operands →
      operand.Scoped state.cells.size := by
    rintro _ operand rfl mem
    exact (h.scoped_of_reaches hscoped (Verdict.reaches_resolve value)).operand mem
  constructor
  · intro hpasses
    cases hpasses with
    | parameter hstands =>
      rw [(h.standsFor_iff hscoped).1 hstands]
      rfl
    | boxed hstands boxing passed =>
      have hcall := (h.standsFor_iff hscoped).1 hstands
      have harg := (h.standsFor_iff (hoperand hcall List.mem_cons_self)).1 passed
      rw [hcall, Verdict.binding?, if_pos boxing, harg]
      rfl
    | unboxed hstands unboxing passed =>
      have hcall := (h.standsFor_iff hscoped).1 hstands
      have hreceiver := (h.standsFor_iff (hoperand hcall List.mem_cons_self)).1 passed
      rw [hcall, Verdict.binding?, hreceiver]
      exact Option.filter_eq_some_iff.2 ⟨rfl, unboxing⟩
  · intro hbinding
    unfold Verdict.binding? at hbinding
    split at hbinding
    next index kind hvalue =>
      cases hbinding
      exact .parameter ((h.standsFor_iff hscoped).2 hvalue)
    next owner name arg hcall =>
      split at hbinding
      next boxing =>
        have harg := Verdict.parameter?_eq_some_iff.1 hbinding
        exact .boxed ((h.standsFor_iff hscoped).2 hcall) boxing
          ((h.standsFor_iff (hoperand hcall List.mem_cons_self)).2 harg)
      next => cases hbinding
    next receiver name hcall =>
      obtain ⟨hparameter, unboxing⟩ := Option.filter_eq_some_iff.1 hbinding
      have hreceiver := Verdict.parameter?_eq_some_iff.1 hparameter
      exact .unboxed ((h.standsFor_iff hscoped).2 hcall) unboxing
        ((h.standsFor_iff (hoperand hcall List.mem_cons_self)).2 hreceiver)
    next => cases hbinding

/-- A value is derived iff it is not accounted for. -/
theorem WellFormed.accounted_iff (h : state.WellFormed) (hscoped : value.Scoped state.cells.size) :
    state.cells.Accounted value ↔
      Verdict.of state.cells (state.cells.resolve value) ≠ .derived := by
  rw [Cells.Accounted, ← Verdict.reachesParameter_resolve, ← Verdict.of_eq_independent_iff]
  have hbound : (∃ binding, state.cells.PassesOn binding value) ↔
      ∃ binding, Verdict.of state.cells (state.cells.resolve value) = .bound binding := by
    refine exists_congr fun binding => ?_
    rw [h.passesOn_iff hscoped, Verdict.of_eq_bound_iff]
  rw [hbound]
  cases Verdict.of state.cells (state.cells.resolve value) <;> simp

/-! ### Assigned fields -/

/-- An operation leaves the assigned fields alone, or assigns a new one. -/
theorem Operation.assignments_perform (state : State) (operation : Operation) :
    (operation.perform state).assignments = state.assignments ∨
      ∃ field value, field ∉ state.assignments.map (·.1) ∧
        (operation.perform state).assignments = state.assignments ++ [(field, value)] := by
  cases operation with
  | pop =>
    obtain ⟨stack, -, heq⟩ := perform_pop state
    rw [heq]
    exact .inl rfl
  | popMany count =>
    obtain ⟨stack, -, heq⟩ := perform_popMany state count
    rw [heq]
    exact .inl rfl
  | load slot =>
    rcases perform_load state slot with heq | ⟨cell, -, heq⟩
    · rw [heq]
      exact .inl rfl
    · rw [heq]
      exact .inl rfl
  | assign field value =>
    rw [perform]
    cases hassign : state.assign field value with
    | error error => exact .inl rfl
    | ok next =>
      obtain ⟨hfresh, rfl⟩ := Machine.assign_eq_ok_iff.1 hassign
      exact .inr ⟨field, value, hfresh, rfl⟩
  | push isReference value => exact .inl (assignments_push state value isReference)
  | recordName slot name => exact .inl (assignments_recordName state slot name)
  | _ => exact .inl rfl

/-- **Operations assign a field once.** -/
theorem Performs.assigned_nodup (h : Performs state operations last)
    (hnodup : (state.assignments.map (·.1)).Nodup) : (last.assignments.map (·.1)).Nodup := by
  induction h with
  | done state => exact hnodup
  | @next state last operation operations _ _ ih =>
    apply ih
    rcases operation.assignments_perform state with heq | ⟨field, value, hfresh, heq⟩
    · rw [heq]
      exact hnodup
    · rw [heq]
      exact nodup_fields_append hnodup hfresh value

end State

/-! ### Mappings -/

namespace Mapping

variable {cells : Cells} {assignments : List (String × Value)} {mapping : Mapping}
variable {state : State}

/-- **Every field with a binding has an entry of its own.** The names in the mapping are the
assigned fields whose values depend on a parameter, each of them once. -/
theorem names_perm (h : ofAssignments cells assignments = .ok mapping)
    (hfields : (assignments.map (·.1)).Nodup) :
    mapping.fields.names.Perm
      ((assignments.filter fun assigned => cells.dependsOnParameter assigned.2).map (·.1)) := by
  induction assignments generalizing mapping with
  | nil =>
    cases h
    exact .refl _
  | cons head assignments ih =>
    obtain ⟨field, value⟩ := head
    rw [List.map_cons, List.nodup_cons] at hfields
    obtain ⟨hfresh, hfields⟩ := hfields
    obtain ⟨later, hlater, hhead⟩ := ofAssignments_cons_eq_ok h
    have hnames := ih hlater hfields
    have hdepends : cells.dependsOnParameter value = true ↔
        Verdict.of cells (cells.resolve value) ≠ .independent := by
      rw [Cells.dependsOnParameter_iff, ← Verdict.reachesParameter_resolve, ne_eq,
        Verdict.of_eq_independent_iff, not_not]
    rcases hhead with ⟨binding, hverdict, heq⟩ | ⟨hverdict, heq⟩
    · have hbound : cells.dependsOnParameter value = true := by
        rw [hdepends, hverdict]
        nofun
      -- The later names are names of later assignments, so this one is new among them.
      have hnew : field ∉ later.fields.names := by
        intro hmem
        refine hfresh ?_
        obtain ⟨assigned, hassigned, hfield⟩ := List.mem_map.1 (hnames.subset hmem)
        exact List.mem_map.2 ⟨assigned, (List.mem_filter.1 hassigned).1, hfield⟩
      rw [heq, List.filter_cons, if_pos hbound, List.map_cons]
      exact (Table.names_insertEntry_perm binding hnew).trans (hnames.cons field)
    · have hfree : ¬ cells.dependsOnParameter value = true := by
        rw [hdepends, not_not]
        exact hverdict
      rw [heq, List.filter_cons, if_neg hfree]
      exact hnames

/-- A list of assigned fields has a first field with a derived value, or none with such a value. -/
theorem exists_first_derived (cells : Cells) (assignments : List (String × Value)) :
    (∀ assigned ∈ assignments, Verdict.of cells (cells.resolve assigned.2) ≠ .derived) ∨
      ∃ before field value after, assignments = before ++ (field, value) :: after ∧
        (∀ assigned ∈ before, Verdict.of cells (cells.resolve assigned.2) ≠ .derived) ∧
        Verdict.of cells (cells.resolve value) = .derived := by
  cases hfirst : assignments.find? fun assigned =>
      Verdict.of cells (cells.resolve assigned.2) = .derived with
  | none =>
    left
    intro assigned hassigned
    simpa using List.find?_eq_none.1 hfirst assigned hassigned
  | some first =>
    right
    obtain ⟨hderived, before, after, hsplit, hbefore⟩ := List.find?_eq_some_iff_append.1 hfirst
    refine ⟨before, first.1, first.2, after, hsplit, ?_, of_decide_eq_true hderived⟩
    intro assigned hassigned
    simpa using hbefore assigned hassigned

/-- There is a mapping iff no field has a derived value. -/
theorem exists_eq_ok_iff : (∃ mapping, ofAssignments cells assignments = .ok mapping) ↔
    ∀ assigned ∈ assignments, Verdict.of cells (cells.resolve assigned.2) ≠ .derived := by
  refine ⟨?_, exists_ofAssignments_eq_ok⟩
  rintro ⟨mapping, hmapping⟩
  refine (exists_first_derived cells assignments).resolve_right ?_
  rintro ⟨before, field, value, after, rfl, hbefore, hderived⟩
  rw [ofAssignments_eq_error hbefore hderived] at hmapping
  cases hmapping

/-- There is an error iff a field has a derived value, and the first such field is reported. -/
theorem eq_error_iff {error : AnalysisError} : ofAssignments cells assignments = .error error ↔
    ∃ before field value after, assignments = before ++ (field, value) :: after ∧
      (∀ assigned ∈ before, Verdict.of cells (cells.resolve assigned.2) ≠ .derived) ∧
      Verdict.of cells (cells.resolve value) = .derived ∧
      error = .derivedValue field (cells.render (cells.resolve value)) := by
  constructor
  · intro herror
    rcases exists_first_derived cells assignments with hall | hfirst
    · obtain ⟨mapping, hmapping⟩ := exists_ofAssignments_eq_ok hall
      rw [hmapping] at herror
      cases herror
    · obtain ⟨before, field, value, after, rfl, hbefore, hderived⟩ := hfirst
      rw [ofAssignments_eq_error hbefore hderived] at herror
      cases herror
      exact ⟨before, field, value, after, rfl, hbefore, hderived, rfl⟩
  · rintro ⟨before, field, value, after, rfl, hbefore, hderived, rfl⟩
    exact ofAssignments_eq_error hbefore hderived

/-- **Assigned fields are partitioned.** A state that operations lead to has a mapping iff every
assigned value passes a parameter on or leads to none. The mapping has one entry for each assigned
field whose value leads to a parameter, with that parameter, of which there is only one then.
Failing that, the first field in the order of assignment with any other value is reported, with the
text of what the value stands for. -/
theorem ofState_partitions {parameters : List Kind} {operations : List State.Operation}
    (h : State.Performs (.initial parameters) operations state) :
    ((∃ mapping, ofState state = .ok mapping) ↔
      ∀ assigned ∈ state.assignments, state.cells.Accounted assigned.2) ∧
    (∀ mapping, ofState state = .ok mapping →
      mapping.fields.names.Perm ((state.assignments.filter fun assigned =>
        state.cells.dependsOnParameter assigned.2).map (·.1)) ∧
      ∀ field index kind, mapping.fields.get? field = some ⟨index, kind⟩ ↔
        ∃ value, (field, value) ∈ state.assignments ∧
          state.cells.Reaches value (.parameter index kind)) ∧
    ∀ error, ofState state = .error error ↔
      ∃ before field value after target, state.assignments = before ++ (field, value) :: after ∧
        (∀ assigned ∈ before, state.cells.Accounted assigned.2) ∧
        ¬ state.cells.Accounted value ∧ state.cells.StandsFor value target ∧
        error = .derivedValue field (state.cells.render target) := by
  have hstate : state.WellFormed := h.wellFormed (State.wellFormed_initial parameters)
  have hfields : (state.assignments.map (·.1)).Nodup := h.assigned_nodup List.nodup_nil
  have hscoped : ∀ assigned ∈ state.assignments, assigned.2.Scoped state.cells.size :=
    fun _ hmem => hstate.mentioned _ (.assigned hmem)
  have haccounted : ∀ assigned ∈ state.assignments, state.cells.Accounted assigned.2 ↔
      Verdict.of state.cells (state.cells.resolve assigned.2) ≠ .derived :=
    fun assigned hmem => hstate.accounted_iff (hscoped assigned hmem)
  have hok : (∃ mapping, ofState state = .ok mapping) ↔
      ∀ assigned ∈ state.assignments, state.cells.Accounted assigned.2 :=
    exists_eq_ok_iff.trans (forall₂_congr fun assigned hmem => (haccounted assigned hmem).symm)
  refine ⟨hok, ?_, ?_⟩
  · intro mapping hmapping
    refine ⟨names_perm hmapping hfields, ?_⟩
    intro field index kind
    rw [get?_eq_some_iff hmapping hfields]
    refine exists_congr fun value => and_congr_right fun hmem => ?_
    rw [Verdict.of_eq_bound_iff, ← hstate.passesOn_iff (hscoped _ hmem)]
    exact (hok.1 ⟨mapping, hmapping⟩ _ hmem).reaches_iff.symm
  · intro error
    rw [ofState, eq_error_iff]
    refine exists₄_congr fun before field value after => ?_
    have hassigned : state.assignments = before ++ (field, value) :: after →
        (field, value) ∈ state.assignments ∧ ∀ assigned ∈ before, assigned ∈ state.assignments := by
      intro hsplit
      rw [hsplit]
      exact ⟨List.mem_append_right _ List.mem_cons_self, fun _ => List.mem_append_left _⟩
    constructor
    · rintro ⟨hsplit, hbefore, hderived, rfl⟩
      obtain ⟨hmem, hearlier⟩ := hassigned hsplit
      refine ⟨_, hsplit, ?_, ?_, (hstate.standsFor_iff (hscoped _ hmem)).2 rfl, rfl⟩
      · intro assigned hfirst
        exact (haccounted assigned (hearlier assigned hfirst)).2 (hbefore assigned hfirst)
      · rw [haccounted _ hmem, not_not]
        exact hderived
    · rintro ⟨target, hsplit, hbefore, hvalue, hstands, rfl⟩
      obtain ⟨hmem, hearlier⟩ := hassigned hsplit
      rw [haccounted _ hmem, not_not] at hvalue
      rw [← (hstate.standsFor_iff (hscoped _ hmem)).1 hstands]
      refine ⟨hsplit, ?_, hvalue, rfl⟩
      intro assigned hfirst
      exact (haccounted assigned (hearlier assigned hfirst)).1 (hbefore assigned hfirst)

/-- Operations that assign a parameter, its unboxing, a constant, and a sum. -/
def tallyOperations : List State.Operation :=
  [.assign "boxed" (.ref 0),
    .assign "count" (.methodCall (.ref 0) "intValue" []),
    .assign "limit" (.int 10),
    .assign "next" (.binaryOp .add (.methodCall (.ref 0) "intValue" []) (.int 1))]

/-- The state that they lead to. -/
def tallyState : State where
  cells := ⟨#[.parameter 0 (.reference "java.lang.Integer")]⟩
  parameters := [.reference "java.lang.Integer"]
  locals := #[.this, .ref 0]
  stack := []
  assignments := [("boxed", .ref 0), ("count", .methodCall (.ref 0) "intValue" []),
    ("limit", .int 10), ("next", .binaryOp .add (.methodCall (.ref 0) "intValue" []) (.int 1))]
  names := #[none]

theorem ofState_partitions_tally :
    State.Performs (.initial [.reference "java.lang.Integer"]) tallyOperations tallyState ∧
      ((∃ mapping, ofState tallyState = .ok mapping) ↔
        ∀ assigned ∈ tallyState.assignments, tallyState.cells.Accounted assigned.2) ∧
      (∀ mapping, ofState tallyState = .ok mapping →
        mapping.fields.names.Perm ((tallyState.assignments.filter fun assigned =>
          tallyState.cells.dependsOnParameter assigned.2).map (·.1)) ∧
        ∀ field index kind, mapping.fields.get? field = some ⟨index, kind⟩ ↔
          ∃ value, (field, value) ∈ tallyState.assignments ∧
            tallyState.cells.Reaches value (.parameter index kind)) ∧
      ∀ error, ofState tallyState = .error error ↔
        ∃ before field value after target,
          tallyState.assignments = before ++ (field, value) :: after ∧
          (∀ assigned ∈ before, tallyState.cells.Accounted assigned.2) ∧
          ¬ tallyState.cells.Accounted value ∧ tallyState.cells.StandsFor value target ∧
          error = .derivedValue field (tallyState.cells.render target) := by
  have hcell : Value.Scoped 1 (.ref 0) := Value.scoped_ref.2 Nat.one_pos
  have hint : ∀ value, Value.Scoped 1 (.int value) := fun value =>
    (Value.scoped_iff_operands rfl).2 nofun
  have hcount : Value.Scoped 1 (.methodCall (.ref 0) "intValue" []) := by
    refine (Value.scoped_iff_operands rfl).2 ?_
    intro operand mem
    rw [List.mem_singleton.1 mem]
    exact hcell
  have hnext : Value.Scoped 1
      (.binaryOp .add (.methodCall (.ref 0) "intValue" []) (.int 1)) := by
    refine (Value.scoped_iff_operands rfl).2 ?_
    intro operand mem
    rcases List.mem_cons.1 mem with rfl | mem
    · exact hcount
    · rw [List.mem_singleton.1 mem]
      exact hint 1
  have hassign : ∀ field value, Value.Scoped 1 value →
      (State.Operation.assign field value).Scoped 1 := by
    intro field value hscoped
    refine ⟨?_, nofun⟩
    intro other mem
    rw [List.mem_singleton.1 mem]
    exact hscoped
  have hperforms : State.Performs (.initial [.reference "java.lang.Integer"]) tallyOperations
      tallyState :=
    .next (hassign _ _ hcell) (.next (hassign _ _ hcount) (.next (hassign _ _ (hint 10))
      (.next (hassign _ _ hnext) (.done _))))
  exact ⟨hperforms, ofState_partitions hperforms⟩

end Mapping

end FieldFlow
