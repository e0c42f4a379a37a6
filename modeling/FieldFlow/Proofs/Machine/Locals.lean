import FieldFlow.Proofs.Machine.Finality
import FieldFlow.Proofs.State.Slots

/-!
# Local slots of a run

What a slot yields when it is loaded does not depend on what was loaded, called or stored before.

## Main Statements

* `Machine.Visits.laid`: every state of a run holds the parameters as the initial state does
* `State.Laid.load_parameter`: what the load of a slot yields
* `Machine.Visits.load_slot`: the loads of all slots in all states of a run

## Design Notes

All loads of a slot start from one cell, which the slot refers to. The stack is empty at first, so
the values in the slots are settled from the start: no entry of the stack refers to their cells
then, and none does later on. A call changes a cell only through such an entry.
-/

namespace FieldFlow

/-! ### Loads -/

namespace State

variable {state next : State} {parameters : List Kind} {kind : Kind} {index slot : Nat}
variable {value held : Value} {cell : CellId}

/-- Only slots that there are can be loaded. -/
theorem load_eq_error_iff {error : AnalysisError} : state.load slot = .error error ↔
    state.locals.size ≤ slot ∧ error = .unsupported (.slotOutside slot state.locals.size) := by
  rw [load]
  split
  next hnone =>
    rw [Array.getElem?_eq_none_iff] at hnone
    rw [Except.error.injEq, eq_comm]
    exact (and_iff_right hnone).symm
  all_goals
    next hsome =>
      obtain ⟨hlt, -⟩ := Array.getElem?_eq_some_iff.1 hsome
      constructor
      · intro h
        cases h
      · intro h
        exact absurd hlt (Nat.not_lt.2 h.1)

/-- **A reference that was loaded is to a cell of its own.** No slot, no entry of the stack, no
assigned field and no content mentions it. -/
theorem WellFormed.not_occurs_of_load (hstate : state.WellFormed)
    (h : state.load slot = .ok (.ref cell, next)) (hheld : next.Holds held) :
    ¬ Value.Occurs (.ref cell) held := by
  rcases Machine.load_eq_ok_iff.1 h with ⟨shared, hslot, heq, rfl⟩ | ⟨-, hdirect, -⟩
  · cases heq
    intro hoccurs
    have hscoped : held.Scoped state.cells.size := by
      rcases holds_alloc hheld with rfl | hold
      · have hshared := hstate.mentioned _ (.slot (Array.mem_of_getElem? hslot))
        exact hstate.mentioned _ (.content (Value.scoped_ref.1 hshared))
      · exact hstate.mentioned held hold
    exact Nat.lt_irrefl _ (hscoped (.ref state.cells.size) hoccurs state.cells.size rfl)
  · cases hdirect

/-- The load of a slot that belongs to a parameter yields the parameter. -/
theorem Laid.load_parameter (h : Laid state.cells state.locals parameters)
    (hslot : Body.Occupies parameters index kind slot) :
    ∃ value next, state.load slot = .ok (value, next) ∧
      next.cells.resolve value = .parameter index kind := by
  obtain ⟨value, hvalue, -, hresolve⟩ := h.parameter index kind slot hslot
  cases hdirect : value.isRef with
  | false => exact ⟨value, state, Machine.load_eq_ok_iff.2 (.inr ⟨hvalue, hdirect, rfl⟩), hresolve⟩
  | true =>
    cases value with
    | ref cell =>
      refine ⟨_, _, Machine.load_eq_ok_iff.2 (.inl ⟨cell, hvalue, rfl, rfl⟩), ?_⟩
      exact (Cells.content_alloc_self _).trans hresolve
    | _ => cases hdirect

end State

namespace Machine

variable {body : Body} {options : Options} {executed : List Instruction} {state : State}

/-! ### Runs -/

/-- The slots of a state hold the values that the initial state has in them. -/
theorem Visits.locals_eq (h : Visits body options executed state) :
    state.locals = (State.initial body.parameters).locals := by
  have hinvariant : state.Regular ∧ state.locals = (State.initial body.parameters).locals := by
    refine execute_induction (P := fun later => later.Regular ∧
      later.locals = (State.initial body.parameters).locals) ?_ h.reached
      ⟨State.regular_initial body.parameters, rfl⟩
    rintro instruction later next htransition ⟨hregular, hlocals⟩
    obtain ⟨taken, made, rest, changed, hflow, -⟩ := htransition.flow hregular
    exact ⟨(htransition.follows hregular).regular hregular, hflow.locals.trans hlocals⟩
  exact hinvariant.2

/-- **Every state of a run holds the parameters as the initial state does**, in the same slots and
with the same contents of their cells. -/
theorem Visits.laid (h : Visits body options executed state) :
    State.Laid state.cells state.locals body.parameters := by
  have hinitial := State.laid_initial body.parameters
  refine ⟨?_, ?_, ?_⟩
  · rw [h.locals_eq]
    exact hinitial.size
  · rw [h.locals_eq]
    exact hinitial.this
  · intro index kind slot hslot
    obtain ⟨value, hvalue, hscoped, hresolve⟩ := hinitial.parameter index kind slot hslot
    -- Nothing is on the stack at first, so no entry refers to a cell of the slot.
    have hsettled : (State.initial body.parameters).Settled value := nofun
    have hagree := agreeFrom_of_execute h.reached (State.regular_initial _) hscoped hsettled
    refine ⟨value, ?_, hscoped.mono (execute_grows h.reached).size_le, ?_⟩
    · rw [h.locals_eq]
      exact hvalue
    · rw [hagree.resolve_eq]
      exact hresolve

/-- **Calls never change a local slot.** Whatever a run has executed, the load of a slot fails iff
the slot is beyond those of the parameters, and says which slots there are. Slot 0 yields the object
under construction. Every other slot belongs to a parameter and yields that parameter, and if it
comes behind a reference, nothing in the state mentions the cell of that reference. -/
theorem Visits.load_slot (h : Visits body options executed state) (slot : Nat) :
    (∀ error, state.load slot = .error error ↔ body.parameterSlots ≤ slot ∧
      error = .unsupported (.slotOutside slot body.parameterSlots)) ∧
    state.load 0 = .ok (.this, state) ∧
    (0 < slot → slot < body.parameterSlots →
      ∃ index kind, Body.Occupies body.parameters index kind slot) ∧
    ∀ index kind, Body.Occupies body.parameters index kind slot →
      ∃ value next, state.load slot = .ok (value, next) ∧
        next.cells.resolve value = .parameter index kind ∧
        ∀ cell, value = .ref cell → ∀ held, next.Holds held → ¬ Value.Occurs (.ref cell) held := by
  have hlaid := h.laid
  have hsize : state.locals.size = body.parameterSlots := hlaid.size
  refine ⟨?_, load_eq_ok_iff.2 (.inr ⟨hlaid.this, rfl, rfl⟩), Body.exists_occupies, ?_⟩
  · intro error
    rw [← hsize]
    exact State.load_eq_error_iff
  · intro index kind hslot
    obtain ⟨value, next, hload, hresolve⟩ := hlaid.load_parameter hslot
    refine ⟨value, next, hload, hresolve, ?_⟩
    rintro cell rfl held hheld
    exact h.regular.not_occurs_of_load hload hheld

/-- A constructor with a parameter in two slots. It calls a method on the parameter behind that one
before it loads and stores it. -/
def spanLabelled : Body where
  declaringClass := "Span"
  superclass := "java.lang.Object"
  parameters := [.long, .reference "java.lang.String"]
  instructions := [
    .loadLocal 0,
    .invoke ⟨.special, "java.lang.Object", "<init>", [], none⟩,
    .loadLocal 0,
    .loadLocal 3,
    .dup,
    .invoke ⟨.virtual, "java.lang.String", "strip", [], some (.reference "java.lang.String")⟩,
    .pop,
    .pop,
    .loadLocal 3,
    .putField "label",
    .returnVoid]

/-- The state right before the second load of the label. -/
def spanLabelledState : State where
  cells := ⟨#[.parameter 1 (.reference "java.lang.String"),
    .methodCall (.parameter 1 (.reference "java.lang.String")) "strip" []]⟩
  parameters := [.long, .reference "java.lang.String"]
  locals := #[.this, .parameter 0 .long, .parameter 0 .long, .ref 0]
  stack := [.this]
  assignments := []
  names := #[none, none]

theorem load_slot_spanLabelled :
    Visits spanLabelled {} (spanLabelled.instructions.take 8) spanLabelledState ∧
      (∀ error, spanLabelledState.load 3 = .error error ↔
        4 ≤ 3 ∧ error = .unsupported (.slotOutside 3 4)) ∧
      spanLabelledState.load 0 = .ok (.this, spanLabelledState) ∧
      (∃ index kind, Body.Occupies spanLabelled.parameters index kind 3) ∧
      ∃ value next, spanLabelledState.load 3 = .ok (value, next) ∧
        next.cells.resolve value = .parameter 1 (.reference "java.lang.String") ∧
        ∀ cell, value = .ref cell → ∀ held, next.Holds held → ¬ Value.Occurs (.ref cell) held := by
  have hvisits :
      Visits spanLabelled {} (spanLabelled.instructions.take 8) spanLabelledState := by
    refine ⟨by decide, List.take_prefix _ _, by decide, ?_⟩
    with_unfolding_all rfl
  have hslot : Body.Occupies spanLabelled.parameters 1 (.reference "java.lang.String") 3 :=
    ⟨rfl, by decide, by decide⟩
  obtain ⟨hfails, hthis, hbelongs, hyields⟩ := hvisits.load_slot 3
  exact ⟨hvisits, hfails, hthis, hbelongs (by decide) (by decide), hyields 1 _ hslot⟩

end Machine

end FieldFlow
