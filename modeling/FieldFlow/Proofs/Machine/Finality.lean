import FieldFlow.Proofs.Machine.Flow

/-!
# Stored values are final

A value that is stored into the object under construction does not change any more, although its
cells may have been shared with other entries of the stack before. By the time of the store, all
of these entries are gone.

## Main Definitions

* `Machine.Ordered`: entries above the object under construction share no cell with those below it

## Main Statements

* `Machine.Visits.ordered`: the stack of every state of a run is ordered
* `Machine.Visits.stored_is_final`: a stored value keeps its cells, its verdict and its text

## Design Notes

A new reference enters the stack from a slot, in a new cell, or from an entry above the one that it
is put on. So what has been computed above an entry that is built on the object under construction
without any cell never has a cell in common with what lies below that entry. A receiver behind a
cell does not divide the stack in this way, because the same cell may also lie further below.
-/

namespace FieldFlow

/-- A value with direct receivers that denotes the object under construction, and is no reference,
is built on that object without any cell. -/
theorem Value.DirectReceivers.isOwn {cells : Cells} {value : Value} (h : value.DirectReceivers)
    (direct : value.isRef = false) (own : cells.denotesThis value = true) : value.IsOwn := by
  have hroot := h.isRef_receiverRoot direct
  rw [Cells.denotesThis, Cells.reachesThis] at own
  rw [Value.IsOwn]
  cases hvalue : value.receiverRoot with
  | this => rfl
  | ref cell =>
    rw [hvalue] at hroot
    cases hroot
  | _ =>
    rw [hvalue] at own
    cases own

namespace Machine

variable {context : Context} {instruction : Instruction} {state stored next last : State}
variable {body : Body} {options : Options} {executed more : List Instruction}
variable {taken made rest : List Value} {value receiver : Value} {changed : CellId} {field : String}

/-- Among entries that end in one, there is an entry built on the object under construction. -/
theorem EndsOwn.exists_own {entries : List Value} (h : EndsOwn entries) (hmem : value ∈ entries) :
    ∃ lowest ∈ entries, lowest.IsOwn := by
  cases hlast : entries.getLast? with
  | none =>
    rw [List.getLast?_eq_none_iff.1 hlast] at hmem
    cases hmem
  | some lowest => exact ⟨lowest, List.mem_of_getLast? hlast, h lowest hlast⟩

/-- What is on top does not matter to the end. -/
theorem endsOwn_append {first second : List Value} (hsecond : second ≠ []) :
    EndsOwn (first ++ second) ↔ EndsOwn second := by
  rw [EndsOwn, EndsOwn, List.getLast?_append_of_ne_nil first hsecond]

/-- No slot leads to a cell of the stack, and no entry from the topmost one down to one that is
built on the object under construction leads to a cell of the entries below. -/
structure Ordered (state : State) : Prop where
  slots : ∀ held ∈ state.locals, state.Settled held
  entries : ∀ above below, state.stack = above ++ below → EndsOwn above →
    ∀ entry ∈ above, ∀ cell, .ref cell ∈ below → ¬ state.cells.Reaches entry (.ref cell)

namespace Ordered

/-- An empty stack is ordered. -/
theorem of_empty (h : state.stack = []) : Ordered state where
  slots := by
    intro held _ cell hmem
    rw [h] at hmem
    cases hmem
  entries := by
    intro above below hsplit _ entry hmem
    rw [h] at hsplit
    rw [(List.append_eq_nil_iff.1 hsplit.symm).1] at hmem
    cases hmem

/-- The top of the stack after an instruction belongs to a part of the stack before it that ends in
an entry built on the object under construction, too. -/
theorem exists_part (h : Flow state next taken made rest changed) {above below : List Value}
    (hsplit : next.stack = above ++ below) (hends : EndsOwn above) {entry : Value}
    (hentry : entry ∈ above) :
    ∃ middle lower, rest = middle ++ lower ∧ EndsOwn (taken ++ middle) ∧
      (entry ∈ made ∨ entry ∈ middle) ∧ ∀ cell, .ref cell ∈ below → .ref cell ∈ lower := by
  rw [h.after] at hsplit
  rcases List.append_eq_append_iff.1 hsplit with ⟨middle, rfl, hrest⟩ | ⟨left, hmade, rfl⟩
  · -- The part reaches below what was made.
    refine ⟨middle, below, hrest, ?_, List.mem_append.1 hentry, fun cell hcell => hcell⟩
    by_cases hmiddle : middle = []
    · subst hmiddle
      rw [List.append_nil] at hends hentry ⊢
      obtain ⟨lowest, hmem, hown⟩ := hends.exists_own hentry
      exact (h.own lowest hmem hown).2
    · rw [endsOwn_append hmiddle] at hends ⊢
      exact hends
  · -- The part ends within what was made, among which there are no references then.
    obtain ⟨lowest, hmem, hown⟩ := hends.exists_own hentry
    obtain ⟨hrefs, htaken⟩ := h.own lowest (hmade ▸ List.mem_append_left left hmem) hown
    refine ⟨[], rest, rfl, ?_, .inl (hmade ▸ List.mem_append_left left hentry), ?_⟩
    · rwa [List.append_nil]
    · intro cell hcell
      rcases List.mem_append.1 hcell with hleft | hrest
      · exact absurd (hmade ▸ List.mem_append_right above hleft) (hrefs cell)
      · exact hrest

/-- **Every instruction keeps the stack ordered.** -/
theorem flow (hordered : Ordered state) (hstate : state.WellFormed)
    (h : Flow state next taken made rest changed) : Ordered next where
  slots := by
    intro held hmem
    rw [h.locals] at hmem
    exact (h.settled hstate (hstate.mentioned held (.slot hmem)) (hordered.slots held hmem)).2
  entries := by
    intro above below hsplit hends entry hentry cell hcell
    obtain ⟨middle, lower, hrest, hpart, hmade, hbelow⟩ := exists_part h hsplit hends hentry
    have hlower : .ref cell ∈ lower := hbelow cell hcell
    have hstack : state.stack = (taken ++ middle) ++ lower := by
      rw [h.before, hrest, List.append_assoc]
    have hheld : .ref cell ∈ state.stack := by
      rw [hstack]
      exact List.mem_append_right _ hlower
    have happart := hordered.entries (taken ++ middle) lower hstack hpart
    refine h.not_reaches (Value.scoped_ref.1 (hstate.mentioned _ (.entry hheld))) ?_ ?_ ?_
    · intro held hmem
      exact hordered.slots held hmem cell hheld
    · intro origin hmem
      exact happart origin (List.mem_append_left _ hmem) cell hlower
    · refine hmade.imp_right ?_
      intro hmem
      exact happart entry (List.mem_append_right _ hmem) cell hlower

end Ordered

/-- **The stack of every state of a run is ordered.** -/
theorem Visits.ordered (h : Visits body options executed state) : Ordered state := by
  have hinitial : State.Regular (.initial body.parameters) ∧ Ordered (.initial body.parameters) :=
    ⟨State.regular_initial body.parameters, .of_empty rfl⟩
  refine (execute_induction (P := fun later => later.Regular ∧ Ordered later) ?_ h.reached
    hinitial).2
  intro instruction later next htransition ⟨hregular, hordered⟩
  obtain ⟨taken, made, rest, changed, hflow, -⟩ := htransition.flow hregular
  exact ⟨(htransition.follows hregular).regular hregular, hordered.flow hregular.toWellFormed hflow⟩

/-- A settled value keeps its cells along any execution. -/
theorem agreeFrom_of_execute (h : execute context executed state = .ok last)
    (hregular : state.Regular) (hscoped : value.Scoped state.cells.size)
    (hsettled : state.Settled value) : state.cells.AgreeFrom last.cells value := by
  have hinvariant : last.Regular ∧ value.Scoped last.cells.size ∧ last.Settled value ∧
      state.cells.AgreeFrom last.cells value := by
    refine execute_induction (P := fun later => later.Regular ∧ value.Scoped later.cells.size ∧
      later.Settled value ∧ state.cells.AgreeFrom later.cells value) ?_ h
      ⟨hregular, hscoped, hsettled, .refl _ _⟩
    rintro instruction later next htransition ⟨hregular, hscoped, hsettled, hagree⟩
    obtain ⟨taken, made, rest, changed, hflow, -⟩ := htransition.flow hregular
    obtain ⟨hkept, hsettled⟩ := hflow.settled hregular.toWellFormed hscoped hsettled
    exact ⟨(htransition.follows hregular).regular hregular,
      hscoped.mono htransition.grows.size_le, hsettled, hagree.trans hkept⟩
  exact hinvariant.2.2.2

/-- What is stored over a receiver that is built on the object under construction leads to no cell
of the entries that remain. -/
theorem Ordered.settled_of_store (h : Ordered state)
    (taken : state.stack = value :: receiver :: rest) (own : receiver.IsOwn) :
    State.Settled { state with stack := rest } value := by
  have hsplit : state.stack = [value, receiver] ++ rest := taken
  have hends : EndsOwn [value, receiver] := by
    intro lowest hlowest
    cases hlowest
    exact own
  exact h.entries _ _ hsplit hends value List.mem_cons_self

/-- **A recorded store is final.** Let a run store a value into the object under construction,
through a receiver that is no reference. In every later state of the run the field still has the
value, from which the same cells can be reached with the same contents as right after the store.
So the verdict on the value and its text are those of the time of the store. -/
theorem Visits.stored_is_final (h : Visits body options executed state)
    (hstored : Visits body options (executed ++ [.putField field]) stored)
    (hlast : Visits body options (executed ++ [.putField field] ++ more) last)
    (taken : state.stack = value :: receiver :: rest) (direct : receiver.isRef = false)
    (own : state.cells.denotesThis receiver = true) :
    (field, value) ∈ stored.assignments ∧ (field, value) ∈ last.assignments ∧
      (∀ cell, last.cells.Reaches value (.ref cell) ↔ stored.cells.Reaches value (.ref cell)) ∧
      (∀ cell, stored.cells.Reaches value (.ref cell) →
        (stored.cells.get? cell).isSome ∧ last.cells.get? cell = stored.cells.get? cell) ∧
      Verdict.of last.cells (last.cells.resolve value) =
        Verdict.of stored.cells (stored.cells.resolve value) ∧
      last.cells.render (last.cells.resolve value) =
        stored.cells.render (stored.cells.resolve value) := by
  have hregular := h.regular
  have hadmits : ∀ entry ∈ [value, receiver], state.cells.Admits entry :=
    hregular.admits_taken taken
  have hvalue := hadmits value List.mem_cons_self
  have hreceiver := hadmits receiver (.tail _ List.mem_cons_self)
  -- The store is the only thing that the instruction can have done.
  cases h.transition hstored with
  | ignore taken' foreign =>
    rw [taken] at taken'
    cases taken'
    rw [own] at foreign
    cases foreign
  | store taken' _ fresh =>
    rw [taken] at taken'
    cases taken'
    have hrest := hstored.execute_rest hlast
    have hsettled := h.ordered.settled_of_store taken (hreceiver.receivers.isOwn direct own)
    have hagree := agreeFrom_of_execute hrest hstored.regular hvalue.scope hsettled
    have hassigned : (field, value) ∈ state.assignments ++ [(field, value)] :=
      List.mem_append_right _ List.mem_cons_self
    have hresolved := hagree.of_reaches (Verdict.reaches_resolve value)
    refine ⟨hassigned, (execute_assignments_grow hrest).subset hassigned, ?_, ?_, ?_, ?_⟩
    · intro cell
      exact hagree.reaches_iff
    · intro cell hreach
      have hcell : cell < state.cells.size :=
        Value.scoped_ref.1 (hregular.scoped_of_reaches hvalue.scope hreach)
      have hlater : cell < last.cells.size :=
        Nat.lt_of_lt_of_le hcell (execute_grows hrest).size_le
      refine ⟨Cells.isSome_get? hcell, ?_⟩
      rw [Cells.get?_of_lt hlater, hagree cell hreach]
      exact (Cells.get?_of_lt hcell).symm
    · rw [hagree.resolve_eq, hresolved.verdict_eq]
    · rw [hagree.resolve_eq, hresolved.render_eq]

end Machine

/-- A constructor that calls a method on its parameter through another reference before it stores
the parameter, and loads the parameter again for a further call after that. -/
def countHashed : Body where
  declaringClass := "Counter"
  superclass := "java.lang.Object"
  parameters := [.reference "java.lang.Integer"]
  instructions := [
    .loadLocal 0,
    .invoke ⟨.special, "java.lang.Object", "<init>", [], none⟩,
    .loadLocal 0,
    .loadLocal 1,
    .dup,
    .invoke ⟨.virtual, "java.lang.Integer", "intValue", [], some .int⟩,
    .pop,
    .putField "count",
    .loadLocal 1,
    .invoke ⟨.virtual, "java.lang.Integer", "hashCode", [], some .int⟩,
    .pop,
    .returnVoid]

/-- The state right before the constructor stores its parameter. -/
def countHashedState : State where
  cells := ⟨#[.parameter 0 (.reference "java.lang.Integer"),
    .methodCall (.parameter 0 (.reference "java.lang.Integer")) "intValue" []]⟩
  parameters := [.reference "java.lang.Integer"]
  locals := #[.this, .ref 0]
  stack := [.ref 1, .this]
  assignments := []
  names := #[none]

theorem stored_is_final_countHashed :
    let stored : State := { countHashedState with
      stack := []
      assignments := [("count", .ref 1)] }
    let last : State := { stored with
      cells := ⟨stored.cells.contents.push
        (.methodCall (.parameter 0 (.reference "java.lang.Integer")) "hashCode" [])⟩ }
    Machine.Visits countHashed {} countHashed.instructions last ∧
      ("count", .ref 1) ∈ stored.assignments ∧ ("count", .ref 1) ∈ last.assignments ∧
        (∀ cell, last.cells.Reaches (.ref 1) (.ref cell) ↔
          stored.cells.Reaches (.ref 1) (.ref cell)) ∧
        (∀ cell, stored.cells.Reaches (.ref 1) (.ref cell) →
          (stored.cells.get? cell).isSome ∧ last.cells.get? cell = stored.cells.get? cell) ∧
        Verdict.of last.cells (last.cells.resolve (.ref 1)) =
          Verdict.of stored.cells (stored.cells.resolve (.ref 1)) ∧
        last.cells.render (last.cells.resolve (.ref 1)) =
          stored.cells.render (stored.cells.resolve (.ref 1)) := by
  intro stored last
  have hbefore : Machine.Visits countHashed {} (countHashed.instructions.take 7)
      countHashedState := by
    refine ⟨by decide, List.take_prefix _ _, by decide, ?_⟩
    with_unfolding_all rfl
  have hstored : Machine.Visits countHashed {}
      (countHashed.instructions.take 7 ++ [.putField "count"]) stored := by
    refine ⟨by decide, ⟨countHashed.instructions.drop 8, rfl⟩, by decide, ?_⟩
    with_unfolding_all rfl
  have hlast : Machine.Visits countHashed {}
      (countHashed.instructions.take 7 ++ [.putField "count"] ++ countHashed.instructions.drop 8)
      last := by
    refine ⟨by decide, ⟨[], rfl⟩, by decide, ?_⟩
    with_unfolding_all rfl
  refine ⟨hlast, hbefore.stored_is_final hstored hlast rfl rfl ?_⟩
  with_unfolding_all rfl

end FieldFlow
