import FieldFlow.Value.Cells

/-!
# Growth of cells

What the operations on cells do to the contents, and the order in which the cells of one run
follow each other.

## Main Definitions

* `Value.Wraps`: a value is another with method calls around it
* `Cells.Grows`: later cells hold what earlier ones held, wrapped in method calls
* `Cells.Extends`: further cells, while the contents of the former ones are untouched

## Main Statements

* `Cells.grows_alloc`, `Cells.grows_set`: the two ways in which cells change

## Design Notes

A call through a reference is the only change of a content. The content becomes the receiver of the
call, so nothing that could be seen at the bottom of the cell is ever lost.
-/

namespace FieldFlow

/-- The outer value is the inner one with any number of method calls around it. -/
inductive Value.Wraps (inner : Value) : Value → Prop
  | same : Wraps inner inner
  | call {outer : Value} (name : String) (args : List Value) (h : Wraps inner outer) :
      Wraps inner (.methodCall outer name args)

theorem Value.Wraps.trans {inner middle outer : Value} (h : inner.Wraps middle)
    (later : middle.Wraps outer) : inner.Wraps outer := by
  induction later with
  | same => exact h
  | call name args _ ih => exact ih.call name args

namespace Cells

variable {cells later last : Cells}

/-! ### Contents -/

/-- A cell that was never allocated stands for itself. -/
theorem content_of_size_le {cell : CellId} (h : cells.size ≤ cell) :
    cells.content cell = .ref cell := by
  rw [content, get?, Array.getElem?_eq_none h]
  rfl

@[simp] theorem resolve_ref (cell : CellId) : cells.resolve (.ref cell) = cells.content cell := rfl

/-- Only a reference is replaced by something else. -/
theorem resolve_of_isRef_eq_false {value : Value} (h : value.isRef = false) :
    cells.resolve value = value := by
  cases value <;> first | rfl | simp [Value.isRef] at h

theorem size_alloc (value : Value) : (cells.alloc value).2.size = cells.size + 1 := by
  simp [alloc, size]

/-- A new cell holds what it was made for. -/
theorem content_alloc_self (value : Value) :
    (cells.alloc value).2.content cells.size = cells.resolve value := by
  simp [alloc, content, get?, size]

/-- A new cell leaves the contents of the others as they are. -/
theorem content_alloc_of_lt {cell : CellId} (h : cell < cells.size) (value : Value) :
    (cells.alloc value).2.content cell = cells.content cell := by
  rw [size] at h
  simp [alloc, content, get?, Array.getElem?_push_lt h, h]

@[simp] theorem size_set (cell : CellId) (value : Value) :
    (cells.set cell value).size = cells.size := by
  simp [set, size]

theorem content_set_self {cell : CellId} (h : cell < cells.size) (value : Value) :
    (cells.set cell value).content cell = cells.resolve value := by
  rw [size] at h
  simp [set, content, get?, h]

theorem content_set_of_ne {cell other : CellId} (h : other ≠ cell) (value : Value) :
    (cells.set cell value).content other = cells.content other := by
  simp [set, content, get?, Ne.symm h]

/-! ### Growth -/

/-- Every cell is still there, and its content is the former one with method calls around it. -/
structure Grows (cells later : Cells) : Prop where
  size_le : cells.size ≤ later.size
  wraps : ∀ cell < cells.size, (cells.content cell).Wraps (later.content cell)

theorem Grows.refl (cells : Cells) : cells.Grows cells :=
  ⟨Nat.le_refl _, fun _ _ => .same⟩

theorem Grows.trans (h : cells.Grows later) (h' : later.Grows last) : cells.Grows last := by
  refine ⟨Nat.le_trans h.size_le h'.size_le, fun cell hcell => ?_⟩
  exact (h.wraps cell hcell).trans (h'.wraps cell (Nat.lt_of_lt_of_le hcell h.size_le))

/-- A new cell changes no content. -/
theorem grows_alloc (value : Value) : cells.Grows (cells.alloc value).2 := by
  refine ⟨by rw [size_alloc]; exact Nat.le_succ _, fun cell hcell => ?_⟩
  rw [content_alloc_of_lt hcell]
  exact .same

/-- Setting a cell to a call on its content changes no other content. -/
theorem grows_set (cell : CellId) (name : String) (args : List Value) :
    cells.Grows (cells.set cell (.methodCall (cells.content cell) name args)) := by
  refine ⟨Nat.le_of_eq (size_set _ _).symm, fun other hother => ?_⟩
  by_cases hsame : other = cell
  · subst hsame
    rw [content_set_self hother]
    exact .call name args .same
  · rw [content_set_of_ne hsame]
    exact .same

/-! ### Further cells -/

/-- There may be further cells, and the former ones have the same contents. -/
structure Extends (cells later : Cells) : Prop where
  size_le : cells.size ≤ later.size
  kept : ∀ cell < cells.size, later.content cell = cells.content cell

namespace Extends

theorem refl (cells : Cells) : cells.Extends cells :=
  ⟨Nat.le_refl _, fun _ _ => rfl⟩

theorem trans (h : cells.Extends later) (h' : later.Extends last) : cells.Extends last := by
  refine ⟨Nat.le_trans h.size_le h'.size_le, ?_⟩
  intro cell hcell
  rw [h'.kept cell (Nat.lt_of_lt_of_le hcell h.size_le), h.kept cell hcell]

theorem alloc (h : cells.Extends later) (value : Value) : cells.Extends (later.alloc value).2 := by
  refine h.trans ⟨?_, ?_⟩
  · rw [size_alloc]
    exact Nat.le_succ _
  · intro cell hcell
    exact content_alloc_of_lt hcell value

/-- Only new cells may be changed. -/
theorem set (h : cells.Extends later) {cell : CellId} (hcell : cells.size ≤ cell) (value : Value) :
    cells.Extends (later.set cell value) := by
  refine ⟨?_, ?_⟩
  · rw [size_set]
    exact h.size_le
  · intro other hother
    rw [content_set_of_ne]
    · exact h.kept other hother
    · rintro rfl
      exact Nat.not_lt.2 hcell hother

end Extends

end Cells

end FieldFlow
