import FieldFlow.Proofs.AliasFree.Trees
import FieldFlow.Proofs.Value.Frame

/-!
# Values that unfold to trees

A value from which no circle of cells can be reached is a finite expression, in which the contents
of cells are written out.

## Main Definitions

* `Unfolds`: the value is the tree, with the contents of cells in place of references

## Main Statements

* `Unfolds.unique`: a value unfolds to one tree
* `Unfolds.not_reaches_content`: no cell of such a value leads back to itself
* `Unfolds.alloc`, `Unfolds.rebind`: references to new cells, and calls through references
* `Unfolds.verdict_eq`: the verdict on the value is the verdict on the tree

## Design Notes

In contrast to `Covers`, the tree is exactly what the value stands for, so a call through another
reference to one of its cells changes the tree. A content is no reference itself, because the
verdicts look behind one reference only.
-/

namespace FieldFlow

/-- The value is the tree, with the contents of cells in place of references. -/
inductive Unfolds (cells : Cells) : Value → Tree → Prop
  | cell {cell : CellId} {tree : Tree} (direct : (cells.content cell).isRef = false)
      (h : Unfolds cells (cells.content cell) tree) : Unfolds cells (.ref cell) tree
  | this : Unfolds cells .this .this
  | parameter (index : Nat) (kind : Kind) :
      Unfolds cells (.parameter index kind) (.parameter index kind)
  | constant (constant : Constant) : Unfolds cells (.constant constant) (.constant constant)
  | int (value : Int64) : Unfolds cells (.int value) (.int value)
  | new (className : String) : Unfolds cells (.new className) (.new className)
  | methodCall {receiver : Value} {tree : Tree} {args : List Value} {trees : List Tree}
      (name : String) (h : Unfolds cells receiver tree) (length : args.length = trees.length)
      (each : ∀ arg tree, (arg, tree) ∈ args.zip trees → Unfolds cells arg tree) :
      Unfolds cells (.methodCall receiver name args) (.methodCall tree name trees)
  | staticCall {args : List Value} {trees : List Tree} (owner name : String)
      (length : args.length = trees.length)
      (each : ∀ arg tree, (arg, tree) ∈ args.zip trees → Unfolds cells arg tree) :
      Unfolds cells (.staticCall owner name args) (.staticCall owner name trees)
  | fieldRead {receiver : Value} {tree : Tree} (name : String) (h : Unfolds cells receiver tree) :
      Unfolds cells (.fieldRead receiver name) (.fieldRead tree name)
  | staticField (owner name : String) :
      Unfolds cells (.staticField owner name) (.staticField owner name)
  | binaryOp {left right : Value} {tree second : Tree} (operator : Operator)
      (first : Unfolds cells left tree) (other : Unfolds cells right second) :
      Unfolds cells (.binaryOp operator left right) (.binaryOp operator tree second)

namespace Unfolds

variable {cells later : Cells} {value : Value} {tree tree' : Tree} {args : List Value}
variable {trees : List Tree} {cell : CellId} {binding : Binding}

/-- A call unfolds to the call of the trees to which its arguments unfold. -/
theorem call {receiver : Value} (name : String) (h : Unfolds cells receiver tree)
    (hargs : List.Forall₂ (Unfolds cells) args trees) :
    Unfolds cells (.methodCall receiver name args) (.methodCall tree name trees) :=
  .methodCall name h hargs.length_eq fun _ _ => (List.forall₂_iff_zip.1 hargs).2

theorem callStatic (owner name : String) (hargs : List.Forall₂ (Unfolds cells) args trees) :
    Unfolds cells (.staticCall owner name args) (.staticCall owner name trees) :=
  .staticCall owner name hargs.length_eq fun _ _ => (List.forall₂_iff_zip.1 hargs).2

/-! ### Trees of a value -/

/-- A value covers the tree to which it unfolds. -/
theorem covers (h : Unfolds cells value tree) : Covers cells value tree := by
  induction h with
  | cell _ _ ih => exact .cell ih
  | this => exact .this
  | parameter index kind => exact .parameter index kind
  | constant constant => exact .constant constant
  | int value => exact .int value
  | new className => exact .new className
  | methodCall name _ length _ ih each => exact .methodCall name ih length each
  | staticCall owner name length _ each => exact .staticCall owner name length each
  | fieldRead name _ ih => exact .fieldRead name ih
  | staticField owner name => exact .staticField owner name
  | binaryOp operator _ _ first other => exact .binaryOp operator first other

theorem mem_zip_getElem {index : Nat} (hargs : index < args.length)
    (htrees : index < trees.length) : (args[index], trees[index]) ∈ args.zip trees := by
  have hzip : index < (args.zip trees).length := by
    rw [List.length_zip]
    exact Nat.lt_min.2 ⟨hargs, htrees⟩
  exact List.mem_iff_getElem.2 ⟨index, hzip, List.getElem_zip⟩

/-- Lists of trees of the same values are equal, if the trees of each value are. -/
theorem unique_args {trees' : List Tree} (length : args.length = trees.length)
    (length' : args.length = trees'.length)
    (each : ∀ arg tree, (arg, tree) ∈ args.zip trees →
      ∀ tree', Unfolds cells arg tree' → tree = tree')
    (each' : ∀ arg tree, (arg, tree) ∈ args.zip trees' → Unfolds cells arg tree) :
    trees = trees' := by
  refine List.ext_getElem (length.symm.trans length') ?_
  intro index hindex hindex'
  have hargs : index < args.length := length ▸ hindex
  have htree' := each' _ _ (mem_zip_getElem hargs hindex')
  exact each _ _ (mem_zip_getElem hargs hindex) _ htree'

/-- **A value unfolds to one tree.** -/
theorem unique (h : Unfolds cells value tree) (h' : Unfolds cells value tree') : tree = tree' := by
  induction h generalizing tree' with
  | cell _ _ ih =>
    cases h' with
    | cell _ h' => exact ih h'
  | methodCall name _ length each ih iheach =>
    cases h' with
    | methodCall _ h' length' each' =>
      rw [ih h', unique_args length length' (fun arg tree hmem _ => iheach arg tree hmem) each']
  | staticCall owner name length each iheach =>
    cases h' with
    | staticCall _ _ length' each' =>
      rw [unique_args length length' (fun arg tree hmem _ => iheach arg tree hmem) each']
  | fieldRead name _ ih =>
    cases h' with
    | fieldRead _ h' => rw [ih h']
  | binaryOp operator _ _ ihfirst ihother =>
    cases h' with
    | binaryOp _ first other => rw [ihfirst first, ihother other]
  | _ =>
    cases h'
    rfl

/-- An operand of the value unfolds to an operand of the tree. -/
theorem exists_operand {operand : Value} (h : Unfolds cells value tree)
    (mem : operand ∈ value.operands) :
    ∃ tree', Unfolds cells operand tree' ∧ tree'.toValue ∈ tree.toValue.operands := by
  have hargs : ∀ {args : List Value} {trees : List Tree}, args.length = trees.length →
      (∀ arg tree, (arg, tree) ∈ args.zip trees → Unfolds cells arg tree) → operand ∈ args →
        ∃ tree', Unfolds cells operand tree' ∧ tree'.toValue ∈ trees.map Tree.toValue := by
    intro args trees length each mem
    obtain ⟨index, hindex, rfl⟩ := List.getElem_of_mem mem
    have htrees : index < trees.length := length ▸ hindex
    exact ⟨trees[index], each _ _ (mem_zip_getElem hindex htrees),
      List.mem_map_of_mem (List.getElem_mem htrees)⟩
  cases h with
  | @methodCall receiver tree args trees name h length each =>
    rw [Tree.toValue]
    rcases List.mem_cons.1 mem with rfl | mem
    · exact ⟨tree, h, List.mem_cons_self⟩
    · obtain ⟨tree', h', mem'⟩ := hargs length each mem
      exact ⟨tree', h', .tail _ mem'⟩
  | @staticCall args trees owner name length each =>
    rw [Tree.toValue]
    exact hargs length each mem
  | @fieldRead receiver tree name h =>
    rw [Tree.toValue, List.mem_singleton.1 mem]
    exact ⟨tree, h, List.mem_cons_self⟩
  | @binaryOp left right tree second operator first other =>
    rw [Tree.toValue]
    rcases List.mem_cons.1 mem with rfl | mem
    · exact ⟨tree, first, List.mem_cons_self⟩
    · rw [List.mem_singleton.1 mem]
      exact ⟨second, other, .tail _ List.mem_cons_self⟩
  | _ => cases mem

/-- What can be reached from the value unfolds to a tree that is not larger. -/
theorem exists_of_reaches {target : Value} (h : Unfolds cells value tree)
    (hreach : cells.Reaches value target) :
    ∃ tree', Unfolds cells target tree' ∧ sizeOf tree'.toValue ≤ sizeOf tree.toValue := by
  induction hreach with
  | refl => exact ⟨tree, h, Nat.le_refl _⟩
  | tail _ step ih =>
    obtain ⟨middle, hmiddle, hle⟩ := ih
    cases step with
    | operand mem =>
      obtain ⟨tree', h', mem'⟩ := hmiddle.exists_operand mem
      exact ⟨tree', h', Nat.le_trans (Nat.le_of_lt (Value.sizeOf_lt_of_mem_operands mem')) hle⟩
    | content =>
      cases hmiddle with
      | cell _ hmiddle => exact ⟨middle, hmiddle, hle⟩

/-- All cells that can be reached from the value exist. -/
theorem cell_lt_size (h : Unfolds cells value tree) (hreach : cells.Reaches value (.ref cell)) :
    cell < cells.size := by
  obtain ⟨_, h', -⟩ := h.exists_of_reaches hreach
  exact h'.covers.cell_lt_size

/-- **The content of a cell does not lead back to the cell.** The tree of the cell would be smaller
than itself. -/
theorem not_reaches_content (h : Unfolds cells (.ref cell) tree) :
    ¬ cells.Reaches (cells.content cell) (.ref cell) := by
  intro hreach
  have hsame := h
  cases h with
  | cell direct h =>
    obtain ⟨operand, mem, hreach⟩ := hreach.exists_operand direct
    obtain ⟨middle, hmiddle, mem'⟩ := h.exists_operand mem
    obtain ⟨tree', h', hle⟩ := hmiddle.exists_of_reaches hreach
    have hlt := Value.sizeOf_lt_of_mem_operands mem'
    rw [hsame.unique h'] at hlt
    exact Nat.not_le_of_lt hlt hle

/-! ### Changes of cells -/

/-- A value whose cells stay the same still unfolds to its tree. -/
theorem frame (h : Unfolds cells value tree) (hagree : cells.AgreeFrom later value) :
    Unfolds later value tree := by
  induction h with
  | @cell cell tree direct h ih =>
    have hcontent : later.content cell = cells.content cell := hagree cell (.refl _)
    have hbelow := ih (hagree.of_reaches (.head (.content cell) (.refl _)))
    rw [← hcontent] at direct hbelow
    exact .cell direct hbelow
  | this => exact .this
  | parameter index kind => exact .parameter index kind
  | constant constant => exact .constant constant
  | int value => exact .int value
  | new className => exact .new className
  | methodCall name _ length _ ih each =>
    refine .methodCall name (ih (hagree.operand List.mem_cons_self)) length ?_
    intro arg tree hmem
    exact each arg tree hmem (hagree.operand (.tail _ (List.of_mem_zip hmem).1))
  | staticCall owner name length _ each =>
    refine .staticCall owner name length ?_
    intro arg tree hmem
    exact each arg tree hmem (hagree.operand (List.of_mem_zip hmem).1)
  | fieldRead name _ ih => exact .fieldRead name (ih (hagree.operand List.mem_cons_self))
  | staticField owner name => exact .staticField owner name
  | binaryOp operator _ _ first other =>
    exact .binaryOp operator (first (hagree.operand List.mem_cons_self))
      (other (hagree.operand (.tail _ List.mem_cons_self)))

/-- A new cell is none of those that the value leads to. -/
theorem agreeFrom_alloc (h : Unfolds cells value tree) (content : Value) :
    cells.AgreeFrom (cells.alloc content).2 value := by
  intro cell hreach
  exact Cells.content_alloc_of_lt (h.cell_lt_size hreach) content

/-- What a value is resolved to unfolds to the same tree, and is no reference. -/
theorem resolve (h : Unfolds cells value tree) :
    Unfolds cells (cells.resolve value) tree ∧ (cells.resolve value).isRef = false := by
  cases h with
  | cell direct h => exact ⟨h, direct⟩
  | _ =>
    refine ⟨?_, rfl⟩
    rw [Cells.resolve_of_isRef_eq_false rfl]
    constructor <;> assumption

/-- **A reference to a new cell unfolds to the tree of the value in it.** -/
theorem alloc (h : Unfolds cells value tree) :
    Unfolds (cells.alloc value).2 (.ref cells.size) tree := by
  obtain ⟨hresolved, hdirect⟩ := h.resolve
  have hcontent : (cells.alloc value).2.content cells.size = cells.resolve value :=
    Cells.content_alloc_self value
  refine .cell (hcontent ▸ hdirect) ?_
  rw [hcontent]
  exact hresolved.frame (hresolved.agreeFrom_alloc value)

/-- **A call through a reference unfolds to the call**, unless an argument leads to the cell. -/
theorem rebind (h : Unfolds cells (.ref cell) tree) (name : String)
    (hargs : List.Forall₂ (Unfolds cells) args trees)
    (hapart : ∀ arg ∈ args, ¬ cells.Reaches arg (.ref cell)) :
    Unfolds (cells.set cell (.methodCall (cells.content cell) name args)) (.ref cell)
      (.methodCall tree name trees) := by
  have hself := Cells.content_set_self h.covers.cell_lt_size
    (.methodCall (cells.content cell) name args)
  rw [Cells.resolve_of_isRef_eq_false rfl] at hself
  have hothers : ∀ other, other ≠ cell →
      (cells.set cell (.methodCall (cells.content cell) name args)).content other =
        cells.content other :=
    fun other hother => Cells.content_set_of_ne hother _
  have hcontent : Unfolds cells (cells.content cell) tree := h.resolve.1
  refine .cell (by rw [hself]; rfl) ?_
  rw [hself]
  refine .call name ?_ ?_
  · exact hcontent.frame (Cells.agreeFrom_of_change hothers h.not_reaches_content)
  · refine ((List.forall₂_and_left args trees).2 ⟨hapart, hargs⟩).imp ?_
    rintro arg tree ⟨hfree, harg⟩
    exact harg.frame (Cells.agreeFrom_of_change hothers hfree)

/-! ### Verdicts -/

/-- A parameter behind at most one reference is one in the tree. -/
theorem parameter?_eq (h : Unfolds cells value tree) :
    Verdict.parameter? (cells.resolve value) = Verdict.parameter? tree.toValue := by
  obtain ⟨hresolved, hdirect⟩ := h.resolve
  generalize cells.resolve value = resolved at hresolved hdirect
  cases hresolved with
  | cell => cases hdirect
  | _ => rw [Tree.toValue] <;> rfl

/-- What the value passes on, the tree passes on. -/
theorem binding?_eq (h : Unfolds cells value tree) (direct : value.isRef = false) :
    Verdict.binding? cells value = Verdict.binding? .empty tree.toValue := by
  cases h with
  | cell => cases direct
  | @methodCall receiver tree args trees name h length each =>
    rw [Tree.toValue]
    cases args with
    | nil =>
      obtain rfl := List.length_eq_zero_iff.1 length.symm
      rw [List.map_nil, Verdict.binding?, Verdict.binding?, h.parameter?_eq, Tree.resolve_toValue]
    | cons arg args =>
      cases trees with
      | nil => cases length
      | cons tree trees => rfl
  | @staticCall args trees owner name length each =>
    rw [Tree.toValue]
    rcases args with _ | ⟨arg, _ | ⟨second, args⟩⟩
    · obtain rfl := List.length_eq_zero_iff.1 length.symm
      rfl
    · obtain ⟨tree, rfl⟩ := List.length_eq_one_iff.1 length.symm
      have harg := each arg tree List.mem_cons_self
      rw [List.map_cons, List.map_nil, Verdict.binding?, Verdict.binding?, harg.parameter?_eq,
        Tree.resolve_toValue]
    · rcases trees with _ | ⟨tree, _ | ⟨other, trees⟩⟩
      · cases length
      · cases length
      · rfl
  | _ =>
    rw [Tree.toValue]
    rfl

/-- A parameter can be reached from the value iff it occurs in the tree. -/
theorem dependsOnParameter_eq (h : Unfolds cells value tree) :
    cells.dependsOnParameter value = tree.toValue.mentionsParameter := by
  rw [Bool.eq_iff_iff, Cells.dependsOnParameter_iff]
  refine ⟨?_, h.covers.reachesParameter⟩
  rintro ⟨index, kind, hreach⟩
  induction hreach using Relation.ReflTransGen.head_induction_on generalizing tree with
  | refl =>
    cases h
    rw [Tree.toValue, Value.mentionsParameter]
  | head step _ ih =>
    cases step with
    | operand mem =>
      obtain ⟨tree', h', mem'⟩ := h.exists_operand mem
      exact (Value.mentionsParameter_iff _).2 (.inr ⟨_, mem', ih h'⟩)
    | content =>
      cases h with
      | cell _ h => exact ih h

/-- **The verdict on the value is the verdict on its tree.** -/
theorem verdict_eq (h : Unfolds cells value tree) :
    Verdict.of cells (cells.resolve value) = Verdict.of .empty tree.toValue := by
  obtain ⟨hresolved, hdirect⟩ := h.resolve
  rw [Verdict.of, Verdict.of, hresolved.binding?_eq hdirect, hresolved.dependsOnParameter_eq,
    Cells.dependsOnParameter_empty]

end Unfolds

end FieldFlow
