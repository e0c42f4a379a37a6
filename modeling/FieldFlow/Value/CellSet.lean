/-!
# Sets of cells

Finite sets of cell numbers, kept as the bits of a natural number.

## Main Definitions

* `CellSet.contains`, `CellSet.insert`, `CellSet.union`, `CellSet.erase`: the set operations
* `CellSet.below`: all cells below a bound
* `CellSet.highest?`: the highest member

## Design Notes

A union costs one operation on the numbers, so a set can be kept with every node of a large value.
Taking a member away lowers the number, which is what searches over cells use as their measure.
-/

namespace FieldFlow

/-- Cells are numbered in the order of their allocation. -/
abbrev CellId := Nat

/-- A finite set of cells; bit `c` of the mask tells whether cell `c` is a member. -/
structure CellSet where
  mask : Nat
  deriving DecidableEq, Repr, Inhabited

namespace CellSet

/-- The set without members. -/
def empty : CellSet := ⟨0⟩

/-- The set of one cell. -/
def singleton (cell : CellId) : CellSet := ⟨1 <<< cell⟩

/-- The cells numbered below a bound. -/
def below (bound : Nat) : CellSet := ⟨(1 <<< bound) - 1⟩

/-- Whether a cell is a member. -/
def contains (set : CellSet) (cell : CellId) : Bool :=
  set.mask.testBit cell

/-- The cells of either set. -/
def union (set other : CellSet) : CellSet :=
  ⟨set.mask ||| other.mask⟩

/-- The cells common to two sets. -/
def inter (set other : CellSet) : CellSet :=
  ⟨set.mask &&& other.mask⟩

/-- The set without one cell. -/
def erase (set : CellSet) (cell : CellId) : CellSet :=
  ⟨set.mask &&& (set.mask ^^^ 1 <<< cell)⟩

/-- The highest member. -/
def highest? (set : CellSet) : Option CellId :=
  if set.mask = 0 then none else some set.mask.log2

@[simp] theorem contains_empty (cell : CellId) : empty.contains cell = false := by
  simp [empty, contains]

@[simp] theorem contains_singleton (member cell : CellId) :
    (singleton member).contains cell = decide (member = cell) := by
  simp [singleton, contains, Nat.one_shiftLeft, Nat.testBit_two_pow]

@[simp] theorem contains_below (bound : Nat) (cell : CellId) :
    (below bound).contains cell = decide (cell < bound) := by
  simp [below, contains, Nat.one_shiftLeft]

@[simp] theorem contains_union (set other : CellSet) (cell : CellId) :
    (set.union other).contains cell = (set.contains cell || other.contains cell) := by
  simp [union, contains]

@[simp] theorem contains_inter (set other : CellSet) (cell : CellId) :
    (set.inter other).contains cell = (set.contains cell && other.contains cell) := by
  simp [inter, contains]

@[simp] theorem contains_erase (set : CellSet) (gone cell : CellId) :
    (set.erase gone).contains cell = (set.contains cell && decide (gone ≠ cell)) := by
  by_cases h : gone = cell <;> simp [erase, contains, Nat.one_shiftLeft, h]

/-- The highest member is a member. -/
theorem contains_of_highest? {set : CellSet} {cell : CellId} (h : set.highest? = some cell) :
    set.contains cell = true := by
  unfold highest? at h
  split at h
  · contradiction
  next hmask =>
    cases h
    exact Nat.testBit_log2 hmask

/-- A set without a highest member has no members. -/
theorem contains_of_highest?_eq_none {set : CellSet} (h : set.highest? = none) (cell : CellId) :
    set.contains cell = false := by
  unfold highest? at h
  split at h
  next hmask => simp [contains, hmask]
  · contradiction

/-- Erasing a member lowers the mask. -/
theorem mask_erase_lt {set : CellSet} {cell : CellId} (h : set.contains cell = true) :
    (set.erase cell).mask < set.mask := by
  refine Nat.lt_of_le_of_ne Nat.and_le_left fun heq => ?_
  have hgone : (set.erase cell).contains cell = false := by simp
  simp [contains, heq] at hgone
  simp [contains, hgone] at h

end CellSet

end FieldFlow
