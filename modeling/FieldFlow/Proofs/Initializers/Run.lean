import FieldFlow.Proofs.AliasFree.Linear
import FieldFlow.Proofs.Initializers.Evaluation
import FieldFlow.Proofs.State.Slots

/-!
# Runs of initializing constructors

A constructor that only assigns expressions to fields, from its first instruction to its return.

## Main Statements

* `Initializers.constructor_eq`: the instructions of the constructor
* `Initializers.prepared_initial`: before the first instruction, the parameters are in their slots
* `Initializers.exists_run_constructor`: the run succeeds, and each field was assigned what its
  expression stands for

## Design Notes

A slot number has 16 bits. It is the number of the first slot of a parameter only because the
parameters of a body that passes its checks do not take more slots than that.
-/

namespace FieldFlow.Initializers

open Machine (Context)

variable {parameters : List Kind} {context : Context} {state : State} {initializer : String}
variable {assignments : List (Assignment parameters)}

/-! ### Instructions -/

theorem foldl_push (body : Body) (instructions : List Instruction) :
    instructions.foldl Body.push body =
      { body with instructions := body.instructions ++ instructions } := by
  induction instructions generalizing body with
  | nil => rw [List.foldl_nil, List.append_nil]
  | cons instruction rest ih =>
    rw [List.foldl_cons, ih, Body.push, List.append_cons _ instruction rest]

/-- The call of the constructor of the superclass. -/
def superCode (superclass : String) : List Instruction :=
  [.loadLocal 0, .invoke ⟨.special, superclass, initializerName, [], none⟩]

theorem constructor_eq (declaringClass superclass initializer : String)
    (assignments : List (Assignment parameters)) :
    constructor declaringClass superclass initializer assignments =
      ⟨declaringClass, superclass, parameters, superCode superclass ++
        assignments.flatMap (Assignment.code initializer) ++ [.returnVoid]⟩ := by
  rw [constructor, foldl_push, List.append_assoc]
  rfl

theorem Assignment.not_returnVoid (initializer : String) (assignment : Assignment parameters) :
    .returnVoid ∉ assignment.code initializer := by
  simp [Assignment.code, assignment.value.not_returnVoid initializer]

/-! ### Slots -/

/-- The entry of a parameter is found behind the entries of the parameters before it. -/
theorem getElem?_parametersFrom {α : Type} (domain : AliasFree.Domain α) (first index : Nat)
    (h : index < parameters.length) :
    (AliasFree.State.parametersFrom domain first parameters)[
        Kind.totalWidth (parameters.take index)]? =
      some (domain.parameter (first + index) parameters[index]) := by
  induction parameters generalizing first index with
  | nil => cases h
  | cons kind kinds ih =>
    rw [AliasFree.State.parametersFrom]
    cases index with
    | zero =>
      rw [List.take_zero, Kind.totalWidth_nil, List.getElem?_append_left]
      · rw [List.getElem?_replicate_of_lt kind.width_pos]
        rfl
      · rw [List.length_replicate]
        exact kind.width_pos
    | succ index =>
      rw [List.take_succ_cons, Kind.totalWidth_cons, List.getElem?_append_right]
      · rw [List.length_replicate, Nat.add_sub_cancel_left, ih (first + 1) index,
          Nat.add_right_comm, Nat.add_assoc]
        rfl
      · rw [List.length_replicate]
        exact Nat.le_add_right _ _

/-- **Before the first instruction, the parameters are in their slots.** -/
theorem prepared_initial (hslots : 1 + Kind.totalWidth parameters ≤ 65535) :
    Prepared parameters (.initial parameters) := by
  have hlocals := (AliasFree.unshared_initial parameters).unfolds.getElem?_locals
  refine ⟨?_, ?_⟩
  · rcases hlocals 0 with ⟨-, hnone⟩ | ⟨value, tree, hheld, htree, hvalue⟩
    · cases hnone
    · cases htree
      -- No cell of the initial state holds the object under construction.
      have hslots := State.slots_initial parameters
      rcases hslots.slot value (Array.mem_of_getElem? hheld) with
        rfl | ⟨index, kind, rfl⟩ | ⟨cell, hcell, rfl⟩
      · exact hheld
      · cases hvalue
      · obtain ⟨index, kind, hcontent⟩ := hslots.cell cell hcell
        cases hvalue with
        | cell _ hvalue =>
          rw [hcontent] at hvalue
          cases hvalue
  · intro index
    rw [Body.toNat_slotBefore hslots]
    have hentry : (AliasFree.State.initial AliasFree.trees parameters).locals[
        Body.slotBefore parameters index]? = some (.parameter index parameters[index]) := by
      rw [Body.slotBefore, Nat.add_comm, AliasFree.State.initial, List.getElem?_cons_succ,
        getElem?_parametersFrom _ 0 index index.isLt, Nat.zero_add]
      rfl
    rcases hlocals (Body.slotBefore parameters index) with
      ⟨-, hnone⟩ | ⟨value, tree, hheld, htree, hvalue⟩
    · rw [hentry] at hnone
      cases hnone
    · rw [hentry] at htree
      cases htree
      exact ⟨value, hheld, hvalue⟩

/-! ### Assignments -/

/-- The call of the constructor of the superclass leaves the state as it is, under whatever name
constructors delegate. -/
theorem execute_superCode (h : state.locals[0]? = some .this) :
    Machine.execute context (superCode context.superclass) state = .ok state := by
  have hload : Machine.Transition context state (.loadLocal 0) (state.pushLiteral .this) :=
    .loadValue h rfl
  have hcall : Machine.Transition context (state.pushLiteral .this)
      (.invoke ⟨.special, context.superclass, initializerName, [], none⟩) state := by
    by_cases hname : initializerName = context.initializer
    · exact .superCall ⟨hname, rfl⟩ rfl rfl
    · have hlength : ([] : List Value).length = ([] : List Kind).length := rfl
      exact .valueCall (fun hsuper => hname hsuper.1) (fun hself => hname hself.1) rfl hlength rfl
        rfl
  exact hload.execute_cons hcall.execute

/-- An assigned field is that of the assignment, and its value what the expression stands for. -/
structure Fulfils (initializer : String) (cells : Cells) (assigned : String × Value)
    (assignment : Assignment parameters) : Prop where
  field : assigned.1 = assignment.field
  unfolds : Unfolds cells assigned.2 (assignment.tree initializer)

theorem Fulfils.extend {cells later : Cells} {assigned : String × Value}
    {assignment : Assignment parameters} (h : Fulfils initializer cells assigned assignment)
    (hextends : cells.Extends later) : Fulfils initializer later assigned assignment :=
  ⟨h.field, h.unfolds.frame (h.unfolds.agreeFrom_of_extends hextends)⟩

/-- **An assignment records the value of its expression**, unless the field has a value. -/
theorem Assignment.exists_execute (h : Prepared parameters state)
    (assignment : Assignment parameters)
    (hplain : PlainCode context (assignment.code initializer))
    (hfresh : assignment.field ∉ state.assignments.map (·.1)) :
    ∃ later value,
      Machine.execute context (assignment.code initializer) state =
        .ok { state with
          cells := later, assignments := state.assignments ++ [(assignment.field, value)] } ∧
      state.cells.Extends later ∧
        Fulfils initializer later (assignment.field, value) assignment := by
  have hload : Machine.Transition context state (.loadLocal 0) (state.pushLiteral .this) :=
    .loadValue h.this rfl
  have hloaded : Prepared parameters (state.pushLiteral .this) := h.extend (.refl _) _
  obtain ⟨later, values, hexecute, hextends, hvalues⟩ :=
    assignment.value.evaluates initializer hloaded (plainCode_append.1 hplain.tail).1
  obtain ⟨value, hvalue, rfl⟩ := exists_of_forall₂_singleton hvalues
  have hstore : Machine.Transition context
      { state with cells := later, stack := value :: .this :: state.stack }
      (.putField assignment.field)
      { state with
        cells := later, assignments := state.assignments ++ [(assignment.field, value)] } :=
    .store rfl (AliasFree.trees_abstracts.denotesThis .this) hfresh
  have hassign := hload.execute_cons (Machine.execute_trans hexecute hstore.execute)
  exact ⟨later, value, hassign, hextends, rfl, hvalue.unfolds⟩

/-- Assignments to different fields record the values of all expressions. -/
theorem exists_execute_assignments (h : Prepared parameters state)
    (hplain : ∀ assignment ∈ assignments, PlainCode context (assignment.code initializer))
    (hfields : (state.assignments.map (·.1) ++ assignments.map (·.field)).Nodup) :
    ∃ later assigned,
      Machine.execute context (assignments.flatMap (Assignment.code initializer)) state =
        .ok { state with cells := later, assignments := state.assignments ++ assigned } ∧
      state.cells.Extends later ∧
        List.Forall₂ (Fulfils initializer later) assigned assignments := by
  induction assignments generalizing state with
  | nil =>
    refine ⟨state.cells, [], ?_, .refl _, .nil⟩
    rw [List.append_nil]
    rfl
  | cons assignment assignments ih =>
    rw [List.map_cons] at hfields
    have hfresh : assignment.field ∉ state.assignments.map (·.1) := fun hmem =>
      (List.nodup_append.1 hfields).2.2 _ hmem _ List.mem_cons_self rfl
    obtain ⟨later, value, hexecute, hextends, hvalue⟩ :=
      assignment.exists_execute h (hplain assignment List.mem_cons_self) hfresh
    have hkept := h.extend hextends state.stack
    have hnext : Prepared parameters { state with
        cells := later, assignments := state.assignments ++ [(assignment.field, value)] } :=
      ⟨hkept.this, hkept.parameter⟩
    have hfields' : ((state.assignments ++ [(assignment.field, value)]).map (·.1) ++
        assignments.map (·.field)).Nodup := by
      rw [List.map_append, List.append_assoc]
      exact hfields
    obtain ⟨last, assigned, hexecute', hextends', hassigned⟩ :=
      ih hnext (fun other hmem => hplain other (.tail _ hmem)) hfields'
    refine ⟨last, (assignment.field, value) :: assigned, ?_, hextends.trans hextends',
      .cons (hvalue.extend hextends') hassigned⟩
    rw [List.flatMap_cons, List.append_cons _ (assignment.field, value) assigned]
    exact Machine.execute_trans hexecute hexecute'

/-! ### Runs -/

/-- **The run of the constructor succeeds**, and each field was assigned what its expression stands
for. -/
theorem exists_run_constructor {declaringClass superclass : String} {options : Options}
    (hslots : 1 + Kind.totalWidth parameters ≤ 65535)
    (hfields : (assignments.map (·.field)).Nodup)
    (hplain : ∀ assignment ∈ assignments,
      PlainCode ⟨declaringClass, superclass, options.initializer⟩ (assignment.code initializer))
    (hlimit : (constructor declaringClass superclass initializer assignments).instructions.length ≤
      options.maxInstructions) :
    ∃ later assigned,
      Machine.run (constructor declaringClass superclass initializer assignments) options =
        .ok { State.initial parameters with cells := later, assignments := assigned } ∧
      List.Forall₂ (Fulfils initializer later) assigned assignments := by
  have hprepared := prepared_initial hslots
  obtain ⟨later, assigned, hexecute, -, hassigned⟩ :=
    exists_execute_assignments hprepared hplain hfields
  refine ⟨later, assigned, ?_, hassigned⟩
  rw [Machine.run, if_neg (Nat.not_lt.2 hlimit), constructor_eq]
  refine Machine.runFrom_of_execute ?_ ?_ rfl
  · rw [List.mem_append, not_or]
    refine ⟨by simp [superCode], ?_⟩
    intro hmem
    obtain ⟨assignment, -, hmem⟩ := List.mem_flatMap.1 hmem
    exact assignment.not_returnVoid initializer hmem
  · exact Machine.execute_trans (execute_superCode hprepared.this) hexecute

end FieldFlow.Initializers
