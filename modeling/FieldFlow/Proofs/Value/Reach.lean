import FieldFlow.Proofs.Value.Growth
import Mathlib.Logic.Relation
import Mathlib.Tactic.ByContra

/-!
# Reachability

What can be reached from a value through its operands and through cells, and the proof that the
search for parameters finds exactly that.

## Main Definitions

* `Value.operands`: the values directly beneath a node
* `Cells.Child`, `Cells.Reaches`: one step and any number of steps down from a value

## Main Statements

* `Cells.dependsOnParameter_iff`: the search answers whether a parameter can be reached

## Design Notes

The contents of cells may refer to each other in a circle, so reachability is the closure of a
relation and not a recursion. The search is compared with it through a set of cells that is closed
under the references in its contents: when the search comes to an end without a parameter, the
cells that it was sent to are such a set.
-/

namespace FieldFlow

namespace Value

/-- The values directly beneath a node, cells left aside. -/
def operands : Value → List Value
  | methodCall receiver _ args => receiver :: args
  | staticCall _ _ args => args
  | fieldRead receiver _ => [receiver]
  | binaryOp _ left right => [left, right]
  | _ => []

theorem sizeOf_lt_of_mem_operands {value operand : Value} (h : operand ∈ value.operands) :
    sizeOf operand < sizeOf value := by
  cases value with
  | methodCall receiver name args =>
    rw [methodCall.sizeOf_spec]
    rcases List.mem_cons.1 h with rfl | h
    · omega
    · have hlt : sizeOf operand < sizeOf args := List.sizeOf_lt_of_mem h
      omega
  | staticCall owner name args =>
    have hlt : sizeOf operand < sizeOf args := List.sizeOf_lt_of_mem h
    rw [staticCall.sizeOf_spec]
    omega
  | fieldRead receiver name =>
    rw [List.mem_singleton.1 h, fieldRead.sizeOf_spec]
    omega
  | binaryOp operator left right =>
    rw [binaryOp.sizeOf_spec]
    rcases List.mem_cons.1 h with rfl | h
    · omega
    · rw [List.mem_singleton.1 h]
      omega
  | _ => cases h

/-- What passes from the operands of every node to the node holds of every value. -/
theorem inductionOnOperands {P : Value → Prop}
    (node : ∀ value, (∀ operand ∈ value.operands, P operand) → P value) (value : Value) :
    P value :=
  node value fun operand h =>
    have := sizeOf_lt_of_mem_operands h
    inductionOnOperands node operand
  termination_by sizeOf value

/-- A parameter occurs in a value that is one, and in a value with an operand in which it does. -/
theorem mentionsParameter_iff (value : Value) :
    value.mentionsParameter = true ↔
      (∃ index kind, value = .parameter index kind) ∨
        ∃ operand ∈ value.operands, operand.mentionsParameter = true := by
  cases value <;> simp [operands, mentionsParameter]

theorem contains_foldl_union (cell : CellId) (args : List Value) (set : CellSet) :
    (args.foldl (fun set arg => set.union arg.mentionedCells) set).contains cell = true ↔
      set.contains cell = true ∨ ∃ arg ∈ args, arg.mentionedCells.contains cell = true := by
  induction args generalizing set with
  | nil => simp
  | cons arg args ih =>
    rw [List.foldl_cons, ih, CellSet.contains_union, Bool.or_eq_true, or_assoc]
    simp

/-- A cell is mentioned by a reference to it, and by a value with an operand that mentions it. -/
theorem contains_mentionedCells (value : Value) (cell : CellId) :
    value.mentionedCells.contains cell = true ↔
      value = .ref cell ∨
        ∃ operand ∈ value.operands, operand.mentionedCells.contains cell = true := by
  cases value with
  | methodCall receiver name args =>
    rw [mentionedCells_methodCall, contains_foldl_union]
    simp [operands]
  | staticCall owner name args =>
    rw [mentionedCells_staticCall, contains_foldl_union]
    simp [operands]
  | _ => simp [operands, mentionedCells]

end Value

namespace Cells

/-- One step down from a value: to an operand, or from a reference to the content of its cell. -/
inductive Child (cells : Cells) : Value → Value → Prop
  | operand {value operand : Value} (mem : operand ∈ value.operands) : Child cells value operand
  | content (cell : CellId) : Child cells (.ref cell) (cells.content cell)

/-- The second value can be reached from the first through operands and cells. -/
def Reaches (cells : Cells) : Value → Value → Prop :=
  Relation.ReflTransGen cells.Child

/-- A parameter can be reached from the value. -/
def ReachesParameter (cells : Cells) (value : Value) : Prop :=
  ∃ index kind, cells.Reaches value (.parameter index kind)

variable {cells : Cells}

theorem Reaches.refl (value : Value) : cells.Reaches value value :=
  Relation.ReflTransGen.refl

theorem Reaches.head {value child target : Value} (step : cells.Child value child)
    (h : cells.Reaches child target) : cells.Reaches value target :=
  Relation.ReflTransGen.head step h

theorem Reaches.trans {value middle target : Value} (h : cells.Reaches value middle)
    (later : cells.Reaches middle target) : cells.Reaches value target :=
  Relation.ReflTransGen.trans h later

theorem ReachesParameter.head {value child : Value} (step : cells.Child value child)
    (h : cells.ReachesParameter child) : cells.ReachesParameter value := by
  obtain ⟨index, kind, h⟩ := h
  exact ⟨index, kind, h.head step⟩

theorem ReachesParameter.of_reaches {value target : Value} (h : cells.Reaches value target)
    (later : cells.ReachesParameter target) : cells.ReachesParameter value := by
  obtain ⟨index, kind, later⟩ := later
  exact ⟨index, kind, h.trans later⟩

/-! ### What the search finds is reachable -/

theorem reachesParameter_of_mentions (value : Value) (h : value.mentionsParameter = true) :
    cells.ReachesParameter value := by
  induction value using Value.inductionOnOperands with
  | node value ih =>
    rcases value.mentionsParameter_iff.1 h with ⟨index, kind, rfl⟩ | ⟨operand, mem, h⟩
    · exact ⟨index, kind, .refl _⟩
    · exact (ih operand mem h).head (.operand mem)

theorem reaches_ref_of_mentioned (value : Value) {cell : CellId}
    (h : value.mentionedCells.contains cell = true) : cells.Reaches value (.ref cell) := by
  induction value using Value.inductionOnOperands with
  | node value ih =>
    rcases (value.contains_mentionedCells cell).1 h with rfl | ⟨operand, mem, h⟩
    · exact .refl _
    · exact (ih operand mem h).head (.operand mem)

/-- A successful search had a pending cell from which a parameter can be reached. -/
theorem exists_pending_of_searchParameter (unvisited pending : CellSet)
    (h : cells.searchParameter unvisited pending = true) :
    ∃ cell, pending.contains cell = true ∧ cells.ReachesParameter (.ref cell) := by
  fun_induction searchParameter cells unvisited pending with
  | case1 => simp at h
  | case2 unvisited pending cell hcell hunvisited hmask value ih =>
    have hpending : pending.contains cell = true := by
      have hboth := CellSet.contains_of_highest? hcell
      rw [CellSet.contains_inter, Bool.and_eq_true] at hboth
      exact hboth.1
    -- The content of the visited cell mentions a parameter, or the search goes on with its cells.
    rcases Bool.or_eq_true _ _ ▸ h with h | h
    · exact ⟨cell, hpending, (reachesParameter_of_mentions value h).head (.content cell)⟩
    · obtain ⟨next, hnext, hreach⟩ := ih h
      rw [CellSet.contains_union, Bool.or_eq_true] at hnext
      rcases hnext with hnext | hnext
      · exact ⟨next, hnext, hreach⟩
      · refine ⟨cell, hpending, .of_reaches (.head (.content cell) ?_) hreach⟩
        exact reaches_ref_of_mentioned value hnext

/-! ### What is reachable is found -/

/-- The content of the cell mentions no parameter, and only cells of the set. -/
structure Settled (cells : Cells) (set : CellSet) (cell : CellId) : Prop where
  mentions_eq_false : (cells.content cell).mentionsParameter = false
  contains_of_mentioned : ∀ next, (cells.content cell).mentionedCells.contains next = true →
    set.contains next = true

theorem Settled.mono {set larger : CellSet} {cell : CellId} (h : cells.Settled set cell)
    (hsub : ∀ next, set.contains next = true → larger.contains next = true) :
    cells.Settled larger cell :=
  ⟨h.mentions_eq_false, fun next hnext => hsub next (h.contains_of_mentioned next hnext)⟩

/-- A cell that was never allocated mentions itself and nothing else. -/
theorem settled_of_size_le {set : CellSet} {cell : CellId} (hsize : cells.size ≤ cell)
    (hcell : set.contains cell = true) : cells.Settled set cell := by
  have hcontent := content_of_size_le hsize
  refine ⟨?_, fun next hnext => ?_⟩
  · rw [hcontent, Value.mentionsParameter]
  · rw [hcontent, Value.contains_mentionedCells] at hnext
    obtain rfl : cell = next := by simpa [Value.operands] using hnext
    exact hcell

/-- From a value that mentions no parameter, and only cells of a set whose cells are all settled
in it, no parameter can be reached. -/
theorem not_reachesParameter_of_settled {set : CellSet}
    (hset : ∀ cell, set.contains cell = true → cells.Settled set cell)
    {value : Value} (hvalue : value.mentionsParameter = false)
    (hcells : ∀ cell, value.mentionedCells.contains cell = true → set.contains cell = true) :
    ¬ cells.ReachesParameter value := by
  rintro ⟨index, kind, hreach⟩
  -- Both assumptions on the value pass to everything below it.
  have hbelow : ∀ target, cells.Reaches value target → target.mentionsParameter = false ∧
      ∀ cell, target.mentionedCells.contains cell = true → set.contains cell = true := by
    intro target hreach
    induction hreach with
    | refl => exact ⟨hvalue, hcells⟩
    | @tail middle target _ step ih =>
      cases step with
      | operand mem =>
        refine ⟨?_, fun cell h => ih.2 cell ?_⟩
        · rw [← Bool.not_eq_true] at ih ⊢
          exact fun h => ih.1 ((Value.mentionsParameter_iff _).2 (.inr ⟨_, mem, h⟩))
        · exact (Value.contains_mentionedCells _ cell).2 (.inr ⟨_, mem, h⟩)
      | content cell =>
        have hcell := hset cell (ih.2 cell ((Value.contains_mentionedCells _ cell).2 (.inl rfl)))
        exact ⟨hcell.mentions_eq_false, hcell.contains_of_mentioned⟩
  simpa [Value.mentionsParameter] using (hbelow _ hreach).1

/-- A search that finds nothing leaves a set behind in which every cell is settled. The invariant
is that a visited cell is pending and settled, unless it was never allocated. -/
theorem exists_settled_of_searchParameter (unvisited pending : CellSet)
    (hvisited : ∀ cell, unvisited.contains cell = false →
      cells.size ≤ cell ∨ pending.contains cell = true ∧ cells.Settled pending cell)
    (h : cells.searchParameter unvisited pending = false) :
    ∃ set, (∀ cell, set.contains cell = true → cells.Settled set cell) ∧
      ∀ cell, pending.contains cell = true → set.contains cell = true := by
  fun_induction searchParameter cells unvisited pending with
  | case1 unvisited pending hnone =>
    refine ⟨pending, fun cell hcell => ?_, fun cell hcell => hcell⟩
    have hboth := CellSet.contains_of_highest?_eq_none hnone cell
    rw [CellSet.contains_inter, hcell, Bool.true_and] at hboth
    rcases hvisited cell hboth with hsize | ⟨-, hsettled⟩
    · exact settled_of_size_le hsize hcell
    · exact hsettled
  | case2 unvisited pending cell hcell hunvisited hmask value ih =>
    rw [Bool.or_eq_false_iff] at h
    -- The set only grows, so what was settled in it stays settled.
    have hsub : ∀ next, pending.contains next = true →
        (pending.union value.mentionedCells).contains next = true := by
      intro next hnext
      rw [CellSet.contains_union, hnext, Bool.true_or]
    have hlater : ∀ other, (unvisited.erase cell).contains other = false →
        cells.size ≤ other ∨ (pending.union value.mentionedCells).contains other = true ∧
          cells.Settled (pending.union value.mentionedCells) other := by
      intro other hother
      by_cases hsame : other = cell
      · subst hsame
        have hpending := CellSet.contains_of_highest? hcell
        rw [CellSet.contains_inter, Bool.and_eq_true] at hpending
        refine .inr ⟨hsub other hpending.1, h.1, fun next hnext => ?_⟩
        rw [CellSet.contains_union, hnext, Bool.or_true]
      · have hgone : unvisited.contains other = false := by
          simpa [Ne.symm hsame] using hother
        exact (hvisited other hgone).imp_right fun hold => ⟨hsub other hold.1, hold.2.mono hsub⟩
    obtain ⟨set, hset, hunion⟩ := ih hlater h.2
    exact ⟨set, hset, fun next hnext => hunion next (hsub next hnext)⟩

/-- **The search for parameters is exact**, whatever circles the contents of cells form. -/
theorem dependsOnParameter_iff (value : Value) :
    cells.dependsOnParameter value = true ↔ cells.ReachesParameter value := by
  constructor
  · intro h
    rcases Bool.or_eq_true _ _ ▸ h with h | h
    · exact reachesParameter_of_mentions value h
    · obtain ⟨cell, hcell, hreach⟩ := exists_pending_of_searchParameter _ _ h
      exact .of_reaches (reaches_ref_of_mentioned value hcell) hreach
  · intro hreach
    by_contra hnot
    rw [Bool.not_eq_true, dependsOnParameter, Bool.or_eq_false_iff] at hnot
    obtain ⟨set, hset, hsub⟩ := exists_settled_of_searchParameter _ _
      (fun cell hcell => .inl (by simpa using hcell)) hnot.2
    exact not_reachesParameter_of_settled hset hnot.1 hsub hreach

/-- Without cells, the search does not look beyond the value. -/
theorem dependsOnParameter_empty (value : Value) :
    empty.dependsOnParameter value = value.mentionsParameter := by
  rw [dependsOnParameter, searchParameter]
  split
  · exact Bool.or_false _
  next cell hcell =>
    have hboth := CellSet.contains_of_highest? hcell
    simp [empty, size] at hboth

end Cells

end FieldFlow
