import FieldFlow.Body.Builder
import FieldFlow.Proofs.State.Operations

/-!
# Slots of parameters

Which local slots belong to which parameter, and what a new state holds in them.

## Main Definitions

* `Body.Occupies`: a slot belongs to a parameter
* `State.Laid`: local slots as they are laid out for a list of parameters

## Main Statements

* `Body.exists_occupies`, `Body.Occupies.unique`: every slot but the first belongs to one parameter
* `Body.occupies_iff`: the slots of a parameter, counted from its first one
* `State.laid_initial`: a new state holds every parameter in the slots that belong to it

## Design Notes

The slots are filled parameter by parameter, so the layout is shown for the parameters that have
been placed already, with one more parameter at a time.
-/

namespace FieldFlow

/-! ### Which slot belongs to which parameter -/

namespace Body

variable {parameters : List Kind} {kind kind' added : Kind} {index other slot : Nat}

/-- The slot belongs to the parameter of the given index and kind: it is the first slot of the
parameter, or the second one of a wide parameter. -/
structure Occupies (parameters : List Kind) (index : Nat) (kind : Kind) (slot : Nat) : Prop where
  declared : parameters[index]? = some kind
  first_le : slotBefore parameters index ≤ slot
  lt_next : slot < slotBefore parameters index + kind.width

/-- A parameter begins where the one before it ends. -/
theorem slotBefore_succ (h : parameters[index]? = some kind) :
    slotBefore parameters (index + 1) = slotBefore parameters index + kind.width := by
  rw [slotBefore, slotBefore, List.take_add_one, h, Option.toList_some, Kind.totalWidth_append,
    Kind.totalWidth_cons, Kind.totalWidth_nil, Nat.add_zero, Nat.add_assoc]

theorem slotBefore_mono (parameters : List Kind) (h : index ≤ other) :
    slotBefore parameters index ≤ slotBefore parameters other := by
  have htake : (parameters.take other).take index = parameters.take index := by
    rw [List.take_take, Nat.min_eq_left h]
  have hsplit := Kind.totalWidth_append ((parameters.take other).take index)
    ((parameters.take other).drop index)
  rw [List.take_append_drop, htake] at hsplit
  rw [slotBefore, slotBefore]
  omega

/-- All slots of the parameters end where those of the last of them do. -/
theorem slotBefore_le (parameters : List Kind) (index : Nat) :
    slotBefore parameters index ≤ 1 + Kind.totalWidth parameters := by
  have hsplit := Kind.totalWidth_append (parameters.take index) (parameters.drop index)
  rw [List.take_append_drop] at hsplit
  rw [slotBefore]
  omega

/-- The first slot of every parameter has a number of 16 bits, if all slots have. -/
theorem toNat_slotBefore (hslots : 1 + Kind.totalWidth parameters ≤ 65535) (index : Nat) :
    (UInt16.ofNat (slotBefore parameters index)).toNat = slotBefore parameters index := by
  refine UInt16.toNat_ofNat_of_lt' ?_
  have hle := slotBefore_le parameters index
  rw [UInt16.size]
  omega

/-- **Every slot but the first belongs to a parameter**, as long as it is one of their slots. -/
theorem exists_occupies (hpos : 0 < slot) (hslot : slot < 1 + Kind.totalWidth parameters) :
    ∃ index kind, Occupies parameters index kind slot := by
  obtain ⟨offset, rfl⟩ := Nat.exists_eq_add_of_lt hpos
  induction parameters generalizing offset with
  | nil =>
    rw [Kind.totalWidth_nil] at hslot
    omega
  | cons kind kinds ih =>
    rw [Kind.totalWidth_cons] at hslot
    by_cases hfirst : offset < kind.width
    · refine ⟨0, kind, rfl, ?_, ?_⟩
      · rw [slotBefore, List.take_zero, Kind.totalWidth_nil]
        omega
      · rw [slotBefore, List.take_zero, Kind.totalWidth_nil]
        omega
    · obtain ⟨index, other, h⟩ := ih (offset - kind.width) (by omega) (by omega)
      have hfirst_le := h.first_le
      have hlt_next := h.lt_next
      rw [slotBefore] at hfirst_le hlt_next
      refine ⟨index + 1, other, h.declared, ?_, ?_⟩
      · rw [slotBefore, List.take_succ_cons, Kind.totalWidth_cons]
        omega
      · rw [slotBefore, List.take_succ_cons, Kind.totalWidth_cons]
        omega

namespace Occupies

/-- The slots of a parameter are those before the next one begins. -/
theorem lt_slotBefore_succ (h : Occupies parameters index kind slot) :
    slot < slotBefore parameters (index + 1) := by
  rw [slotBefore_succ h.declared]
  exact h.lt_next

theorem lt_size (h : Occupies parameters index kind slot) :
    slot < 1 + Kind.totalWidth parameters :=
  Nat.lt_of_lt_of_le h.lt_slotBefore_succ (slotBefore_le parameters _)

theorem le_index (h : Occupies parameters index kind slot)
    (h' : Occupies parameters other kind' slot) : index ≤ other := by
  refine Nat.not_lt.1 fun hlt => ?_
  -- The slots of the other parameter end before those of this one begin.
  have hnext : slotBefore parameters (other + 1) ≤ slotBefore parameters index :=
    slotBefore_mono parameters hlt
  have hlast := h'.lt_slotBefore_succ
  have hfirst := h.first_le
  omega

/-- **A slot belongs to one parameter.** -/
theorem unique (h : Occupies parameters index kind slot)
    (h' : Occupies parameters other kind' slot) : index = other :=
  Nat.le_antisymm (h.le_index h') (h'.le_index h)

end Occupies

/-- The slots of a parameter are its first slot and, if it is wide, the one behind that. -/
theorem occupies_iff (h : parameters[index]? = some kind) :
    Occupies parameters index kind slot ↔ slot = slotBefore parameters index ∨
      kind.isWide = true ∧ slot = slotBefore parameters index + 1 := by
  have hrange : Occupies parameters index kind slot ↔
      slotBefore parameters index ≤ slot ∧ slot < slotBefore parameters index + kind.width :=
    ⟨fun hslot => ⟨hslot.first_le, hslot.lt_next⟩, fun hslot => ⟨h, hslot.1, hslot.2⟩⟩
  rw [hrange, Kind.width]
  cases kind.isWide with
  | true =>
    simp only [if_true, true_and]
    omega
  | false =>
    simp only [Bool.false_eq_true, if_false, false_and, or_false]
    omega

/-- With one more parameter, the slots of the others stay theirs. -/
theorem Occupies.of_concat (h : Occupies (parameters ++ [added]) index kind slot) :
    Occupies parameters index kind slot ∨
      index = parameters.length ∧ kind = added ∧ 1 + Kind.totalWidth parameters ≤ slot ∧
        slot < 1 + Kind.totalWidth parameters + added.width := by
  obtain ⟨hdeclared, hfirst, hnext⟩ := h
  rw [slotBefore] at hfirst hnext
  rcases Nat.lt_trichotomy index parameters.length with hlt | rfl | hgt
  · left
    rw [List.getElem?_append_left hlt] at hdeclared
    rw [List.take_append_of_le_length (Nat.le_of_lt hlt)] at hfirst hnext
    exact ⟨hdeclared, hfirst, hnext⟩
  · right
    rw [List.getElem?_concat_length] at hdeclared
    rw [List.take_left] at hfirst hnext
    cases hdeclared
    exact ⟨rfl, rfl, hfirst, hnext⟩
  · rw [List.getElem?_eq_none] at hdeclared
    · cases hdeclared
    · rw [List.length_append]
      exact hgt

end Body

/-- A value over the former cells stands for what it stood for. -/
theorem Cells.Extends.resolve_eq {cells later : Cells} {value : Value} (h : cells.Extends later)
    (hscoped : value.Scoped cells.size) : later.resolve value = cells.resolve value := by
  cases value with
  | ref cell => exact h.kept cell (Value.scoped_ref.1 hscoped)
  | _ => rfl

/-! ### Layout -/

namespace State

variable {cells later : Cells} {locals : Array Value} {parameters : List Kind} {value : Value}

/-- The local slots for a list of parameters: the object under construction, and each parameter in
the slots that belong to it, behind a cell or not. -/
structure Laid (cells : Cells) (locals : Array Value) (parameters : List Kind) : Prop where
  size : locals.size = 1 + Kind.totalWidth parameters
  this : locals[0]? = some .this
  parameter : ∀ index kind slot, Body.Occupies parameters index kind slot →
    ∃ value, locals[slot]? = some value ∧ value.Scoped cells.size ∧
      cells.resolve value = .parameter index kind

/-- One more parameter is placed behind the others. -/
theorem Laid.add (h : Laid cells locals parameters) (kind : Kind) (hextends : cells.Extends later)
    (hscoped : value.Scoped later.size)
    (hvalue : later.resolve value = .parameter parameters.length kind) :
    Laid later (locals ++ Array.replicate kind.width value) (parameters ++ [kind]) where
  size := by
    rw [Array.size_append, Array.size_replicate, h.size, Kind.totalWidth_append,
      Kind.totalWidth_cons, Kind.totalWidth_nil]
    omega
  this := by
    rw [Array.getElem?_append_left (by rw [h.size]; omega)]
    exact h.this
  parameter := by
    intro index other slot hslot
    rcases hslot.of_concat with hold | ⟨rfl, rfl, hfirst, hnext⟩
    · obtain ⟨held, hheld, hbefore, hresolve⟩ := h.parameter index other slot hold
      obtain ⟨hlt, -⟩ := Array.getElem?_eq_some_iff.1 hheld
      refine ⟨held, ?_, hbefore.mono hextends.size_le, ?_⟩
      · rw [Array.getElem?_append_left hlt]
        exact hheld
      · rw [hextends.resolve_eq hbefore]
        exact hresolve
    · refine ⟨value, ?_, hscoped, hvalue⟩
      rw [← h.size] at hfirst hnext
      rw [Array.getElem?_append_right hfirst, Array.getElem?_replicate, if_pos]
      omega

/-- The parameters that follow are placed one after another. -/
theorem Laid.addParameters (h : Laid cells locals parameters) (kinds : List Kind) :
    let added := State.addParameters cells locals parameters.length kinds
    Laid added.1 added.2 (parameters ++ kinds) := by
  induction kinds generalizing cells locals parameters with
  | nil =>
    rw [List.append_nil]
    exact h
  | cons kind kinds ih =>
    have hlength : (parameters ++ [kind]).length = parameters.length + 1 := by simp
    have hnext : ∀ {later locals}, Laid later locals (parameters ++ [kind]) →
        let added := State.addParameters later locals (parameters.length + 1) kinds
        Laid added.1 added.2 (parameters ++ kind :: kinds) := by
      intro later locals hlaid
      rw [List.append_cons, ← hlength]
      exact ih hlaid
    rw [State.addParameters]
    split
    · have hnew : cells.size < (cells.alloc (.parameter parameters.length kind)).2.size := by
        rw [Cells.size_alloc]
        exact Nat.lt_succ_self _
      exact hnext (h.add kind ((Cells.Extends.refl cells).alloc _) (Value.scoped_ref.2 hnew)
        (Cells.content_alloc_self _))
    · have hscoped : (Value.parameter parameters.length kind).Scoped cells.size :=
        (Value.scoped_iff_operands rfl).2 (List.forall_mem_nil _)
      exact hnext (h.add kind (.refl cells) hscoped rfl)

/-- **A new state holds every parameter in the slots that belong to it.** -/
theorem laid_initial (parameters : List Kind) :
    Laid (initial parameters).cells (initial parameters).locals parameters := by
  have hthis : Laid .empty #[.this] [] := by
    refine ⟨rfl, rfl, ?_⟩
    intro index kind slot h
    cases h.declared
  exact hthis.addParameters parameters

end State

end FieldFlow
