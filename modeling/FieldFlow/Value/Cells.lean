import FieldFlow.Value.Basic

/-!
# Cells

The contents of the cells that references point to, and the questions about a value that look
through them.

## Main Definitions

* `Cells`: the contents, numbered in the order of allocation
* `Cells.alloc`, `Cells.set`: a new cell, and a new content for a cell
* `Cells.resolve`: a reference replaced by the content of its cell
* `Cells.denotesThis`: the value is the object under construction
* `Cells.dependsOnParameter`: a parameter can be reached from the value

## Design Notes

No cell holds a bare reference: storing one stores the content of its cell. A reference to a cell
that was never allocated stands for itself.

Both searches take each cell out of the set of unvisited cells before they look into it, so they
end on contents that refer to each other in a circle.
-/

namespace FieldFlow

/-- The contents of all cells, in the order of their allocation. -/
structure Cells where
  contents : Array Value
  deriving Inhabited

namespace Cells

/-- No cells. -/
def empty : Cells := ⟨#[]⟩

/-- The number of cells. -/
def size (cells : Cells) : Nat :=
  cells.contents.size

/-- The content of a cell, if there is such a cell. -/
def get? (cells : Cells) (cell : CellId) : Option Value :=
  cells.contents[cell]?

/-- The content of a cell; a cell that was never allocated stands for itself. -/
def content (cells : Cells) (cell : CellId) : Value :=
  (cells.get? cell).getD (.ref cell)

/-- A reference replaced by the content of its cell, and any other value as it is. -/
def resolve (cells : Cells) : Value → Value
  | .ref cell => cells.content cell
  | value => value

/-- A new cell with the given content. Its number is the number of cells there were before. -/
def alloc (cells : Cells) (value : Value) : CellId × Cells :=
  (cells.size, ⟨cells.contents.push (cells.resolve value)⟩)

/-- A new content for a cell. -/
def set (cells : Cells) (cell : CellId) (value : Value) : Cells :=
  ⟨cells.contents.setIfInBounds cell (cells.resolve value)⟩

/-! ### The object under construction -/

/-- Follows receivers and references from a value, through unvisited cells only. -/
def reachesThis (cells : Cells) (unvisited : CellSet) (value : Value) : Bool :=
  match value.receiverRoot with
  | .this => true
  | .ref cell =>
    if h : unvisited.contains cell then
      have := CellSet.mask_erase_lt h
      reachesThis cells (unvisited.erase cell) (cells.content cell)
    else false
  | _ => false
  termination_by unvisited.mask

/-- A value denotes the object under construction if it is that object, or the result of a method
call whose receiver denotes it. -/
def denotesThis (cells : Cells) (value : Value) : Bool :=
  cells.reachesThis (.below cells.size) value

/-! ### Parameters -/

/-- Looks for a parameter in the pending cells that are unvisited, and in those that they lead
to. -/
def searchParameter (cells : Cells) (unvisited pending : CellSet) : Bool :=
  match h : (pending.inter unvisited).highest? with
  | none => false
  | some cell =>
    have hcell : unvisited.contains cell = true := by
      have hboth := CellSet.contains_of_highest? h
      rw [CellSet.contains_inter, Bool.and_eq_true] at hboth
      exact hboth.2
    have := CellSet.mask_erase_lt hcell
    let value := cells.content cell
    value.mentionsParameter ||
      searchParameter cells (unvisited.erase cell) (pending.union value.mentionedCells)
  termination_by unvisited.mask

/-- A value depends on a parameter if one occurs in it or in the content of a cell that can be
reached from it. -/
def dependsOnParameter (cells : Cells) (value : Value) : Bool :=
  value.mentionsParameter || cells.searchParameter (.below cells.size) value.mentionedCells

end Cells

end FieldFlow
