import FieldFlow.Proofs.Value.Growth
import Mathlib.Tactic.ByContra

/-!
# The root of a value

The value at the bottom of a chain of method calls and references, and its stability while cells
grow.

## Main Definitions

* `Cells.RootedAt`: the root of a value, with the number of cells that the chain passes

## Main Statements

* `Cells.RootedAt.denotesThis`, `Cells.denotesThis_iff`: whether a value denotes the object under
  construction is read off its root
* `Cells.RootedAt.grows`: the root stays when cells grow

## Design Notes

The chain of a value is determined by the value, so it cannot pass the same cell twice and still
come to an end: each passage would leave the same number of cells to pass. This is why the search
of `Cells.denotesThis`, which gives up at a visited cell, never gives up too early.
-/

namespace FieldFlow

/-- Neither a reference nor a method call, so that a chain of receivers ends in it. -/
def Value.isRoot : Value → Bool
  | ref _ => false
  | methodCall _ _ _ => false
  | _ => true

/-- The object under construction itself. -/
def Value.isThis : Value → Bool
  | this => true
  | _ => false

namespace Cells

/-- The chain of receivers and references from a value passes the given number of cells and ends in
the root. -/
inductive RootedAt (cells : Cells) : Nat → Value → Value → Prop
  | root {value : Value} (h : value.isRoot = true) : RootedAt cells 0 value value
  | cell {passed : Nat} {cell : CellId} {root : Value}
      (h : RootedAt cells passed (cells.content cell) root) :
      RootedAt cells (passed + 1) (.ref cell) root
  | receiver {passed : Nat} {receiver root : Value} (name : String) (args : List Value)
      (h : RootedAt cells passed receiver root) :
      RootedAt cells passed (.methodCall receiver name args) root

namespace RootedAt

variable {cells later : Cells} {passed passed' : Nat} {value root root' : Value}

/-- A value has one chain. -/
theorem unique (h : cells.RootedAt passed value root) (h' : cells.RootedAt passed' value root') :
    passed = passed' ∧ root = root' := by
  induction h generalizing passed' with
  | root hroot =>
    cases h' with
    | root _ => exact ⟨rfl, rfl⟩
    | cell _ => simp [Value.isRoot] at hroot
    | receiver _ _ _ => simp [Value.isRoot] at hroot
  | cell _ ih =>
    cases h' with
    | root hroot => simp [Value.isRoot] at hroot
    | cell h' =>
      obtain ⟨hpassed, hroot⟩ := ih h'
      exact ⟨by rw [hpassed], hroot⟩
  | receiver _ _ _ ih =>
    cases h' with
    | root hroot => simp [Value.isRoot] at hroot
    | receiver _ _ h' => exact ih h'

/-- A chain only passes allocated cells. -/
theorem cell_lt_size {cell : CellId} (h : cells.RootedAt passed (.ref cell) root) :
    cell < cells.size := by
  by_contra hsize
  have hcontent := content_of_size_le (Nat.not_lt.1 hsize)
  cases h with
  | root hroot => simp [Value.isRoot] at hroot
  | @cell passed _ _ h =>
    -- The cell would hold itself, so its chain would be longer than itself.
    rw [hcontent] at h
    have hpassed := (h.unique (.cell (by rw [hcontent]; exact h))).1
    omega

theorem content {cell : CellId} (h : cells.RootedAt passed (.ref cell) root) :
    ∃ passed', cells.RootedAt passed' (cells.content cell) root := by
  cases h with
  | root hroot => simp [Value.isRoot] at hroot
  | cell h => exact ⟨_, h⟩

/-- Calls around a value leave its root as it is. -/
theorem wraps {outer : Value} (h : cells.RootedAt passed value root) (hwraps : value.Wraps outer) :
    cells.RootedAt passed outer root := by
  induction hwraps with
  | same => exact h
  | call name args _ ih => exact ih.receiver name args

/-- The root of a value stays as it is when cells grow. -/
theorem grows (h : cells.RootedAt passed value root) (hgrows : cells.Grows later) :
    later.RootedAt passed value root := by
  induction h with
  | root hroot => exact .root hroot
  | cell h ih => exact .cell (ih.wraps (hgrows.wraps _ (RootedAt.cell h).cell_lt_size))
  | receiver name args _ ih => exact ih.receiver name args

/-! ### The object under construction -/

theorem receiverRoot_of_isRoot (h : value.isRoot = true) : value.receiverRoot = value := by
  cases value <;> first | rfl | simp [Value.isRoot] at h

theorem reachesThis_methodCall (unvisited : CellSet) (receiver : Value) (name : String)
    (args : List Value) :
    cells.reachesThis unvisited (.methodCall receiver name args) =
      cells.reachesThis unvisited receiver := by
  rw [reachesThis, reachesThis, Value.receiverRoot]

/-- The search answers by the root, as long as every visited cell has more cells to pass than the
value has. -/
theorem reachesThis_eq (h : cells.RootedAt passed value root) (unvisited : CellSet)
    (hvisited : ∀ cell < cells.size, unvisited.contains cell = false →
      ∀ passed' root', cells.RootedAt passed' (.ref cell) root' → passed < passed') :
    cells.reachesThis unvisited value = root.isThis := by
  induction h generalizing unvisited with
  | @root value hroot =>
    rw [reachesThis, receiverRoot_of_isRoot hroot]
    cases value <;> first | rfl | simp [Value.isRoot] at hroot
  | @cell passed cell root h ih =>
    have hsize : cell < cells.size := (RootedAt.cell h).cell_lt_size
    -- A visited cell would have more cells to pass than this one, which it is.
    have hcell : unvisited.contains cell = true := by
      by_contra hgone
      have hlt := hvisited cell hsize (by simpa using hgone) _ _ (.cell h)
      omega
    rw [reachesThis, Value.receiverRoot]
    · simp only [hcell, dite_true]
      refine ih _ fun other hother hgone passed' root' h' => ?_
      -- The cell itself is visited now, and passes one cell more than its content.
      by_cases hsame : cell = other
      · subst hsame
        have hpassed := (h'.unique (.cell h)).1
        omega
      · have hlt := hvisited other hother (by simpa [hsame] using hgone) _ _ h'
        omega
    · intro _ _ _ h
      simp at h
  | receiver name args _ ih =>
    rw [reachesThis_methodCall]
    exact ih unvisited hvisited

/-- **A value denotes the object under construction iff that object is its root.** -/
theorem denotesThis (h : cells.RootedAt passed value root) :
    cells.denotesThis value = root.isThis := by
  refine h.reachesThis_eq _ fun cell hcell hgone => ?_
  simp [hcell] at hgone

/-- The chain of a value goes on from the bottom of its receivers. -/
theorem of_receiverRoot (h : cells.RootedAt passed value.receiverRoot root) :
    cells.RootedAt passed value root := by
  fun_induction Value.receiverRoot value with
  | case1 receiver name args ih => exact (ih h).receiver name args
  | case2 value _ => exact h

end RootedAt

variable {cells : Cells} {value : Value}

/-- The search only comes to the object under construction along the chain of the value. -/
theorem exists_rootedAt_of_reachesThis (unvisited : CellSet)
    (h : cells.reachesThis unvisited value = true) :
    ∃ passed, cells.RootedAt passed value .this := by
  fun_induction reachesThis cells unvisited value with
  | case1 unvisited value hroot =>
    refine ⟨0, .of_receiverRoot ?_⟩
    rw [hroot]
    exact .root rfl
  | case2 unvisited value cell hroot hunvisited _ ih =>
    obtain ⟨passed, hcontent⟩ := ih h
    refine ⟨passed + 1, .of_receiverRoot ?_⟩
    rw [hroot]
    exact .cell hcontent
  | case3 => cases h
  | case4 => cases h

/-- The same for values that may have no root, because their chain goes round in a circle. -/
theorem denotesThis_iff :
    cells.denotesThis value = true ↔ ∃ passed, cells.RootedAt passed value .this := by
  constructor
  · exact exists_rootedAt_of_reachesThis _
  · rintro ⟨passed, h⟩
    exact h.denotesThis

end Cells

end FieldFlow
