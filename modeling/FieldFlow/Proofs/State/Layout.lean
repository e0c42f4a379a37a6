import FieldFlow.Body.Listing
import FieldFlow.Proofs.State.Names
import Mathlib.Algebra.GroupWithZero.Nat

/-!
# The layout of local slots

Where a parameter begins, by every account of it: the number that is given to those who build a
body, the number in the listing, the slot whose debug name is the name of the parameter, and the
slots that hold the parameter before the first instruction.

## Main Definitions

* `Body.Begins`: a parameter begins at a slot by all of these accounts

## Main Statements

* `Body.getElem?_parameterLines`, `Body.listing_eq`: the line of a parameter in the listing
* `Body.slots_agree`: every parameter of a body that passes its checks begins at one slot

## Design Notes

The accounts are separate recursions over the parameters. Each of them is compared with the total
width of the parameters before one, so that no two of them have to be compared with each other.
-/

namespace FieldFlow

theorem Kind.totalWidth_eq_sum (kinds : List Kind) :
    totalWidth kinds = (kinds.map width).sum := by
  induction kinds with
  | nil => rfl
  | cons kind kinds ih => rw [totalWidth_cons, List.map_cons, List.sum_cons, ih]

namespace Body

variable {body : Body} {kind : Kind} {index : Nat}

/-- A body that passes its checks has no more slots than a slot number can tell apart. -/
theorem parameterSlots_le_of_check (h : body.check = .ok ()) : body.parameterSlots ≤ 65535 := by
  rw [check] at h
  split at h
  next => cases h
  next =>
    split at h
    next => cases h
    next =>
      split at h
      next => cases h
      next hslots => exact Nat.not_lt.1 hslots

/-! ### Listings -/

/-- The line of a parameter gives the slot behind those of the parameters before it. -/
theorem getElem?_parameterLines (first slot : Nat) (kinds : List Kind) (index : Nat) :
    (parameterLines first slot kinds)[index]? = kinds[index]?.map
      (parameterLine (first + index) (slot + Kind.totalWidth (kinds.take index))) := by
  induction kinds generalizing first slot index with
  | nil => rfl
  | cons kind kinds ih =>
    rw [parameterLines]
    cases index with
    | zero => rfl
    | succ index =>
      rw [List.getElem?_cons_succ, List.getElem?_cons_succ, ih, List.take_succ_cons,
        Kind.totalWidth_cons, Nat.add_right_comm, Nat.add_assoc first, Nat.add_assoc slot]

/-- The listing of a body has a line for each parameter, behind the first line of the body and those
of the parameters before. -/
theorem listing_eq (h : body.parameters[index]? = some kind) :
    body.listing = String.join (body.headLine ::
      ((parameterLines 0 1 body.parameters).take index ++
        parameterLine index (slotBefore body.parameters index) kind ::
          (parameterLines 0 1 body.parameters).drop (index + 1) ++
        instructionLines 0 body.instructions)) := by
  have hline : (parameterLines 0 1 body.parameters)[index]? =
      some (parameterLine index (slotBefore body.parameters index) kind) := by
    rw [getElem?_parameterLines, h, Nat.zero_add]
    rfl
  obtain ⟨hlt, hget⟩ := List.getElem?_eq_some_iff.1 hline
  rw [← hget, List.getElem_cons_drop, List.take_append_drop]
  rfl

/-! ### All accounts -/

/-- The parameter begins at the slot, by every account of it. -/
structure Begins (body : Body) (index : Nat) (kind : Kind) (first : UInt16) : Prop where
  /-- The slot is the one that instructions are to be built with. -/
  built : body.slotOf? index = some first
  /-- Its number is that of the slots of the object and of the parameters before. -/
  widths : first.toNat = 1 + ((body.parameters.take index).map Kind.width).sum
  /-- It is the slot in the line of the parameter. -/
  listed : body.listing = String.join (body.headLine ::
    ((parameterLines 0 1 body.parameters).take index ++
      parameterLine index first.toNat kind ::
        (parameterLines 0 1 body.parameters).drop (index + 1) ++
      instructionLines 0 body.instructions))
  /-- A debug name for this slot, and for no other, is the name of the parameter. -/
  named : ∀ state : State, state.parameters = body.parameters → ∀ name,
    state.recordName first.toNat name =
      { state with names := state.names.setIfInBounds index (some name) } ∧
    ∀ slot, slot ≠ first.toNat → (state.recordName slot name).names[index]? = state.names[index]?
  /-- The slots of the parameter are this one and, if it is wide, the next. -/
  occupied : ∀ slot, Occupies body.parameters index kind slot ↔
    slot = first.toNat ∨ kind.isWide = true ∧ slot = first.toNat + 1
  /-- Before the first instruction, all of them hold the parameter. -/
  held : ∀ slot, Occupies body.parameters index kind slot →
    ∃ value, (State.initial body.parameters).locals[slot]? = some value ∧
      (State.initial body.parameters).cells.resolve value = .parameter index kind

theorem begins_slotBefore (hslots : body.parameterSlots ≤ 65535)
    (hkind : body.parameters[index]? = some kind) :
    body.Begins index kind (.ofNat (slotBefore body.parameters index)) := by
  obtain ⟨hindex, -⟩ := List.getElem?_eq_some_iff.1 hkind
  have hfirst := toNat_slotBefore hslots index
  refine ⟨if_pos (Nat.le_of_lt hindex), ?_, ?_, ?_, ?_, ?_⟩
  · rw [hfirst, slotBefore, Kind.totalWidth_eq_sum]
  · rw [hfirst]
    exact listing_eq hkind
  · intro state hparameters name
    rw [hfirst, ← hparameters]
    rw [← hparameters] at hindex
    exact ⟨State.recordName_slotBefore hindex name,
      fun slot hslot => State.getElem?_names_recordName_of_ne hslot name⟩
  · intro slot
    rw [hfirst]
    exact occupies_iff hkind
  · intro slot hslot
    have hlaid := State.laid_initial body.parameters
    obtain ⟨value, hvalue, -, hresolve⟩ := hlaid.parameter index kind slot hslot
    exact ⟨value, hvalue, hresolve⟩

/-- **All accounts of the slots agree.** A new state for a body that passes its checks has as many
slots as the body says. The first holds the object under construction, every other belongs to
exactly one parameter, and every parameter begins at a slot of 16 bits by all accounts. -/
theorem slots_agree (h : body.check = .ok ()) :
    (State.initial body.parameters).locals.size = body.parameterSlots ∧
    (State.initial body.parameters).locals[0]? = some .this ∧
    (∀ slot < body.parameterSlots,
      slot = 0 ∨ ∃ index kind, Occupies body.parameters index kind slot) ∧
    (∀ index kind slot, Occupies body.parameters index kind slot →
      0 < slot ∧ slot < body.parameterSlots ∧
        ∀ other kind', Occupies body.parameters other kind' slot → other = index) ∧
    ∀ index kind, body.parameters[index]? = some kind →
      ∃ first, body.Begins index kind first := by
  have hlaid := State.laid_initial body.parameters
  refine ⟨hlaid.size, hlaid.this, ?_, ?_, ?_⟩
  · intro slot hslot
    exact (Nat.eq_zero_or_pos slot).imp_right fun hpos => exists_occupies hpos hslot
  · intro index kind slot hslot
    refine ⟨?_, hslot.lt_size, fun other kind' hother => hother.unique hslot⟩
    exact Nat.lt_of_lt_of_le (Nat.lt_add_right _ Nat.one_pos) hslot.first_le
  · intro index kind hkind
    exact ⟨_, begins_slotBefore (parameterSlots_le_of_check h) hkind⟩

/-- A constructor with parameters of both widths. -/
def reading : Body where
  declaringClass := "Reading"
  superclass := "java.lang.Object"
  parameters := [.long, .int, .double, .reference "java.lang.String"]
  instructions := [.localName 3 "sensor", .returnVoid]

theorem slots_agree_reading :
    reading.check = .ok () ∧
      (State.initial reading.parameters).locals.size = 7 ∧
      (∃ index kind, Occupies reading.parameters index kind 5) ∧
      (∀ index kind, Occupies reading.parameters index kind 5 → index = 2) ∧
      ∃ first, reading.Begins 3 (.reference "java.lang.String") first := by
  have hcheck : reading.check = .ok () := by decide
  obtain ⟨hsize, -, hcovered, hunique, hbegins⟩ := slots_agree hcheck
  have hdouble : Occupies reading.parameters 2 .double 5 := ⟨rfl, by decide, by decide⟩
  refine ⟨hcheck, hsize, (hcovered 5 (by decide)).resolve_left (by decide), ?_, hbegins 3 _ rfl⟩
  intro index kind hslot
  exact (hunique 2 .double 5 hdouble).2.2 index kind hslot

end Body

end FieldFlow
