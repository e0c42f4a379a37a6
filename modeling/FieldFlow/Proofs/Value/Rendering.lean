import FieldFlow.Proofs.Value.Reach
import FieldFlow.Value.Render

/-!
# Rendered values as cut trees

The text of a value is that of its unfolding into a tree, in which all nodes beyond a limit are
elided.

## Main Definitions

* `Unfolding`: a value as a tree, with the contents of cells beneath the references to them
* `Unfolding.text`, `Unfolding.preorder`: the text of a tree, and its nodes in the order of the text
* `Unfolding.cut`: a tree without the subtrees whose roots have a number beyond a limit
* `Cells.unfolding`: the unfolding of a value

## Main Statements

* `Unfolding.preorder_cut`: a tree is cut down to its first nodes
* `Cells.renderOnto_eq`: what is written, and the number of nodes that may still be written, for any
  subtree of the unfolding
* `Cells.render_eq_text_cut`: the text of a value is that of its unfolding, cut at the limit

## Design Notes

Nodes are numbered from one on, each before its children, and the children from left to right. A
child thus has a number that is greater by one than that of its parent, and greater by the size of
the child before it than that of this child. The number of nodes that may still be written is what
the number of the next node leaves of the limit.
-/

namespace FieldFlow

/-- A value as a tree. A node stands for the value at its place, and what follows from the value is
beneath it: its operands, or the content of its cell. A reference with nothing beneath it leads back
to a cell above it. -/
inductive Unfolding where
  | node (value : Value) (children : List Unfolding)
  /-- What is left out. -/
  | elision

/-- The text of a node, from the texts of what is beneath it. -/
def Value.textAround (value : Value) (texts : List String) : String :=
  match value with
  | this => "this"
  | parameter index _ => "p" ++ toString index
  | constant literal => literal.text
  | int value => toString value.toInt
  | ref _ => texts.headD "<cycle>"
  | new className => "new " ++ className
  | methodCall _ name _ =>
    texts.headD "" ++ "." ++ name ++ "(" ++ ", ".intercalate texts.tail ++ ")"
  | staticCall owner name _ => owner ++ "." ++ name ++ "(" ++ ", ".intercalate texts ++ ")"
  | fieldRead _ name => texts.headD "" ++ "." ++ name
  | staticField owner name => owner ++ "#" ++ name
  | binaryOp operator _ _ => (" " ++ operator.symbol ++ " ").intercalate texts

namespace Unfolding

mutual

/-- The text of a tree. -/
def text : Unfolding → String
  | node value children => value.textAround (textAll children)
  | elision => "..."

/-- The texts of trees. -/
def textAll : List Unfolding → List String
  | [] => []
  | tree :: trees => tree.text :: textAll trees

end

mutual

/-- The values at the nodes of a tree, each before those beneath it. -/
def preorder : Unfolding → List Value
  | node value children => value :: preorderAll children
  | elision => []

/-- The values at the nodes of trees, one tree after another. -/
def preorderAll : List Unfolding → List Value
  | [] => []
  | tree :: trees => tree.preorder ++ preorderAll trees

end

/-- The number of nodes of a tree. -/
def size (tree : Unfolding) : Nat :=
  tree.preorder.length

mutual

/-- A tree whose root has the given number, without the subtrees whose roots have a number beyond
the limit. -/
def cut (limit number : Nat) : Unfolding → Unfolding
  | node value children =>
    if limit < number then elision else node value (cutAll limit (number + 1) children)
  | elision => elision

/-- Trees that follow each other, the first with the given number, without the subtrees whose roots
have a number beyond the limit. -/
def cutAll (limit number : Nat) : List Unfolding → List Unfolding
  | [] => []
  | tree :: trees => tree.cut limit number :: cutAll limit (number + tree.size) trees

end

/-- Nothing is left out of the tree. -/
inductive IsWhole : Unfolding → Prop
  | node {value : Value} {children : List Unfolding} (h : ∀ child ∈ children, IsWhole child) :
    IsWhole (.node value children)

/-- The number of nodes of trees. -/
def sizeAll (trees : List Unfolding) : Nat :=
  (preorderAll trees).length

theorem size_node (value : Value) (children : List Unfolding) :
    (node value children).size = sizeAll children + 1 := by
  rw [size, preorder, List.length_cons, sizeAll]

theorem sizeAll_cons (tree : Unfolding) (trees : List Unfolding) :
    sizeAll (tree :: trees) = tree.size + sizeAll trees := by
  rw [sizeAll, preorderAll, List.length_append, size, sizeAll]

theorem cut_of_lt {limit number : Nat} (h : limit < number) (tree : Unfolding) :
    tree.cut limit number = elision := by
  cases tree with
  | node value children => rw [cut, if_pos h]
  | elision => rw [cut]

mutual

/-- **A tree is cut down to its first nodes,** in the order in which they are numbered. -/
theorem preorder_cut (limit number : Nat) (tree : Unfolding) :
    (tree.cut limit number).preorder = tree.preorder.take (limit + 1 - number) := by
  cases tree with
  | node value children =>
    rw [cut]
    split
    next h => rw [Nat.sub_eq_zero_of_le h, List.take_zero, preorder]
    next h =>
      have hrest : limit + 1 - number = limit + 1 - (number + 1) + 1 := by omega
      rw [preorder, preorder, preorderAll_cutAll, hrest, List.take_succ_cons]
  | elision => rw [cut, preorder, List.take_nil]

theorem preorderAll_cutAll (limit number : Nat) (trees : List Unfolding) :
    preorderAll (cutAll limit number trees) = (preorderAll trees).take (limit + 1 - number) := by
  cases trees with
  | nil => rw [cutAll, preorderAll, List.take_nil]
  | cons tree trees =>
    rw [cutAll, preorderAll, preorderAll, preorder_cut, preorderAll_cutAll, List.take_append, size,
      Nat.sub_add_eq]

end

mutual

/-- A tree all of whose numbers are within the limit stays as it is. -/
theorem cut_eq_self {limit number : Nat} (tree : Unfolding) (h : number + tree.size ≤ limit + 1) :
    tree.cut limit number = tree := by
  cases tree with
  | node value children =>
    rw [size_node] at h
    have hnumber : ¬ limit < number := by omega
    rw [cut, if_neg hnumber, cutAll_eq_self children (by omega)]
  | elision => rw [cut]

theorem cutAll_eq_self {limit number : Nat} (trees : List Unfolding)
    (h : number + sizeAll trees ≤ limit + 1) : cutAll limit number trees = trees := by
  cases trees with
  | nil => rw [cutAll]
  | cons tree trees =>
    rw [sizeAll_cons] at h
    rw [cutAll, cut_eq_self tree (by omega), cutAll_eq_self trees (by omega)]

end

end Unfolding

namespace Cells

open Unfolding (textAll cutAll sizeAll)

/-! ### The unfolding of a value -/

/-- The cells that can still be entered below a path. -/
def offPath (cells : Cells) (path : List CellId) : CellSet :=
  path.foldr (fun cell set => set.erase cell) (.below cells.size)

theorem contains_offPath (cells : Cells) (path : List CellId) (cell : CellId) :
    (cells.offPath path).contains cell = (decide (cell < cells.size) && !path.contains cell) := by
  induction path with
  | nil => simp [offPath]
  | cons first path ih =>
    show ((cells.offPath path).erase first).contains cell = _
    rw [CellSet.contains_erase, ih]
    simp [Bool.and_assoc, Bool.and_comm, eq_comm]

/-- Whether a value is a reference that can still be followed, as a number. When it is followed to a
cell that was never allocated, the number falls, although the content is the reference itself. -/
def pendingRef (path : List CellId) : Value → Nat
  | .ref cell => if path.contains cell then 0 else 1
  | _ => 0

/-- The unfolding of a value below the cells of a path. -/
def unfolding (cells : Cells) (path : List CellId) (value : Value) : Unfolding :=
  match value with
  | .ref cell =>
    if path.contains cell then .node (.ref cell) []
    else .node (.ref cell) [cells.unfolding (cell :: path) (cells.content cell)]
  | value =>
    .node value (value.operands.attach.map fun ⟨operand, _⟩ => cells.unfolding path operand)
  termination_by ((cells.offPath path).mask, sizeOf value, pendingRef path value)
  decreasing_by
    next hpath =>
      by_cases hcell : cell < cells.size
      · refine .left _ _ (CellSet.mask_erase_lt ?_)
        show (cells.offPath path).contains cell = true
        rw [contains_offPath, decide_eq_true hcell, Bool.eq_false_iff.2 hpath]
        rfl
      · -- The content is the reference itself, which is now on the path.
        rw [content_of_size_le (Nat.le_of_not_lt hcell)]
        have hle : (cells.offPath (cell :: path)).mask ≤ (cells.offPath path).mask :=
          Nat.and_le_left
        rcases Nat.lt_or_eq_of_le hle with hlt | heq
        · exact .left _ _ hlt
        · rw [heq]
          refine .right _ (.right _ ?_)
          rw [pendingRef, pendingRef, if_pos (by simp), if_neg hpath]
          exact Nat.zero_lt_one
    next hmem => exact .right _ (.left _ _ (Value.sizeOf_lt_of_mem_operands hmem))

variable {cells : Cells} {path : List CellId} {limit depth number : Nat}

/-- A reference to a cell on the path has nothing beneath it. -/
theorem unfolding_ref_of_mem {cell : CellId} (h : path.contains cell = true) :
    cells.unfolding path (.ref cell) = .node (.ref cell) [] := by
  rw [unfolding, if_pos h]

theorem unfolding_ref {cell : CellId} (h : ¬ path.contains cell = true) :
    cells.unfolding path (.ref cell) =
      .node (.ref cell) [cells.unfolding (cell :: path) (cells.content cell)] := by
  rw [unfolding, if_neg h]

/-- Any other value has its operands beneath it. -/
theorem unfolding_of_ne_ref {value : Value} (h : ∀ cell, value ≠ .ref cell) :
    cells.unfolding path value = .node value (value.operands.map (cells.unfolding path)) := by
  rw [unfolding]
  · rw [List.map_attach_eq_pmap, List.pmap_eq_map]
  · exact h

theorem isWhole_unfolding (path : List CellId) (value : Value) :
    (cells.unfolding path value).IsWhole := by
  fun_induction cells.unfolding path value with
  | case1 => exact .node nofun
  | case2 path cell hpath ih => exact .node (List.forall_mem_singleton.2 ih)
  | case3 path value href ih =>
    refine .node fun child hmem => ?_
    obtain ⟨⟨operand, hoperand⟩, -, rfl⟩ := List.mem_map.1 hmem
    exact ih operand hoperand

/-! ### What is written -/

theorem Page.append_mk (text more : String) (budget : Nat) :
    (Page.mk text budget).append more = ⟨text ++ more, budget⟩ := rfl

/-- The page after a tree has been written whose root has the given number. -/
def written (limit number : Nat) (text : String) (tree : Unfolding) : Page :=
  ⟨text ++ (tree.cut limit number).text, limit + 1 - (number + tree.size)⟩

theorem written_of_lt (h : limit < number) (text : String) (tree : Unfolding) :
    written limit number text tree = ⟨text ++ "...", 0⟩ := by
  rw [written, Unfolding.cut_of_lt h, Unfolding.text, Nat.sub_eq_zero_of_le (by omega)]

theorem written_node (h : ¬ limit < number) (text : String) (value : Value)
    (children : List Unfolding) :
    written limit number text (.node value children) =
      ⟨text ++ value.textAround (textAll (cutAll limit (number + 1) children)),
        limit + 1 - (number + 1 + sizeAll children)⟩ := by
  rw [written, Unfolding.cut, if_neg h, Unfolding.text, Unfolding.size_node,
    Nat.add_right_comm number 1, Nat.add_assoc]

/-- Writes arguments with commas between them. -/
def writeArguments (write : Page → Value → Page) (page : Page) (args : List Value) : Page :=
  match args with
  | [] => page
  | first :: more =>
    more.foldl (fun page arg => write (page.append ", ") arg) (write page first)

/-- If each argument is written as its tree, the arguments are written as their trees, which follow
each other. -/
theorem writeArguments_eq {write : Page → Value → Page} {unfold : Value → Unfolding}
    (hwrite : ∀ text later value, number ≤ later →
      write ⟨text, limit + 1 - later⟩ value = written limit later text (unfold value))
    (text : String) (args : List Value) :
    writeArguments write ⟨text, limit + 1 - number⟩ args =
      ⟨text ++ ", ".intercalate (textAll (cutAll limit number (args.map unfold))),
        limit + 1 - (number + sizeAll (args.map unfold))⟩ := by
  cases args with
  | nil => simp [writeArguments, textAll, cutAll, sizeAll, Unfolding.preorderAll]
  | cons first more =>
    -- Every argument but the first has a comma before it, so the induction is on the others.
    rw [writeArguments]
    induction more generalizing text number first with
    | nil =>
      rw [List.foldl_nil, hwrite _ _ _ (Nat.le_refl _), written]
      simp only [List.map_cons, List.map_nil, cutAll, textAll, String.intercalate_singleton,
        Unfolding.sizeAll_cons]
      rfl
    | cons next more ih =>
      rw [List.foldl_cons, hwrite _ _ _ (Nat.le_refl _), written, Page.append_mk]
      rw [ih fun text later value hlater => hwrite text later value (by omega)]
      simp only [List.map_cons, cutAll, textAll, String.intercalate_cons_cons,
        Unfolding.sizeAll_cons, String.append_assoc, Nat.add_assoc]

/-- A reference is written as its tree, if the content of its cell is. -/
theorem renderOnto_ref {cell : CellId} (hnumber : ¬ limit < number) (text : String)
    (hwrite : cells.renderOnto (cell :: path) depth ⟨text, limit + 1 - (number + 1)⟩
        (cells.content cell) =
      written limit (number + 1) text (cells.unfolding (cell :: path) (cells.content cell))) :
    cells.renderOnto path (depth + 1) ⟨text, limit + 1 - number⟩ (.ref cell) =
      written limit number text (cells.unfolding path (.ref cell)) := by
  have hbudget : limit + 1 - number ≠ 0 := by omega
  have hnext : limit + 1 - number - 1 = limit + 1 - (number + 1) := by omega
  rw [renderOnto, if_neg hbudget]
  dsimp only
  rw [hnext]
  split
  next hpath =>
    rw [unfolding_ref_of_mem hpath, written_node hnumber]
    rfl
  next hpath =>
    rw [unfolding_ref hpath, written_node hnumber, hwrite, written]
    simp only [cutAll, textAll, Value.textAround, List.headD_cons, Unfolding.sizeAll_cons]
    rfl

/-- Any other value is written as its tree, if its operands are. -/
theorem renderOnto_of_ne_ref {value : Value} (href : ∀ cell, value ≠ .ref cell)
    (hnumber : ¬ limit < number) (text : String)
    (hwrite : ∀ text later operand, number + 1 ≤ later →
      cells.renderOnto path depth ⟨text, limit + 1 - later⟩ operand =
        written limit later text (cells.unfolding path operand)) :
    cells.renderOnto path (depth + 1) ⟨text, limit + 1 - number⟩ value =
      written limit number text (cells.unfolding path value) := by
  have hbudget : limit + 1 - number ≠ 0 := by omega
  have hnext : limit + 1 - number - 1 = limit + 1 - (number + 1) := by omega
  rw [unfolding_of_ne_ref href, written_node hnumber, renderOnto, if_neg hbudget]
  dsimp only
  rw [hnext]
  cases value with
  | ref cell => exact absurd rfl (href cell)
  | methodCall receiver name args =>
    show (writeArguments (cells.renderOnto path depth)
      ((cells.renderOnto path depth ⟨text, limit + 1 - (number + 1)⟩ receiver).append
        ("." ++ name ++ "(")) args).append ")" = _
    rw [hwrite _ _ _ (Nat.le_refl _), written, Page.append_mk _ ("." ++ name ++ "("),
      writeArguments_eq fun text later arg hlater => hwrite text later arg (by omega),
      Page.append_mk]
    simp only [Value.operands, List.map_cons, cutAll, textAll, Value.textAround, List.headD_cons,
      List.tail_cons, Unfolding.sizeAll_cons, String.append_assoc, Nat.add_assoc]
  | staticCall owner name args =>
    show (writeArguments (cells.renderOnto path depth)
      ⟨text ++ (owner ++ "." ++ name ++ "("), limit + 1 - (number + 1)⟩ args).append ")" = _
    rw [writeArguments_eq hwrite, Page.append_mk]
    simp only [Value.operands, Value.textAround, String.append_assoc]
  | fieldRead receiver name =>
    dsimp only
    rw [hwrite _ _ _ (Nat.le_refl _), written, Page.append_mk]
    simp only [Value.operands, List.map_cons, List.map_nil, cutAll, textAll, Value.textAround,
      List.headD_cons, Unfolding.sizeAll_cons, String.append_assoc]
    rfl
  | binaryOp operator left right =>
    dsimp only
    rw [hwrite _ _ _ (Nat.le_refl _), written, Page.append_mk, hwrite _ _ _ (by omega), written]
    simp only [Value.operands, List.map_cons, List.map_nil, cutAll, textAll, Value.textAround,
      String.intercalate_cons_cons, String.intercalate_singleton, Unfolding.sizeAll_cons,
      String.append_assoc, Nat.add_assoc]
    rfl
  | _ => rfl

/-- **A value is written as its tree,** wherever it stands below the root and whatever may still be
written. The recursion never ends before the nodes that may be written are used up, since there are
at least as many levels left as nodes. -/
theorem renderOnto_eq (path : List CellId) (text : String) (value : Value)
    (hdepth : limit + 1 - number ≤ depth) :
    cells.renderOnto path depth ⟨text, limit + 1 - number⟩ value =
      written limit number text (cells.unfolding path value) := by
  induction depth generalizing path text number value with
  | zero =>
    have hnumber : limit < number := by omega
    rw [written_of_lt hnumber, Nat.le_zero.1 hdepth]
    rfl
  | succ depth ih =>
    by_cases hnumber : limit < number
    · have hbudget : limit + 1 - number = 0 := Nat.sub_eq_zero_of_le hnumber
      rw [written_of_lt hnumber, hbudget, renderOnto]
      rfl
    · by_cases href : ∀ cell, value ≠ .ref cell
      · exact renderOnto_of_ne_ref href hnumber text fun text later operand hlater =>
          ih path text operand (by omega)
      · obtain ⟨cell, rfl⟩ := not_forall_not.1 href
        exact renderOnto_ref hnumber text (ih (cell :: path) text (cells.content cell) (by omega))

/-- **The text of a value is that of its unfolding, cut at the limit.** Every subtree whose root has
a number beyond the limit is elided, so the nodes that are written in full are the first ones, and
no more than the limit. An unfolding that has no more nodes than that is written as it is. -/
theorem render_eq_text_cut (cells : Cells) (value : Value) :
    cells.render value = ((cells.unfolding [] value).cut renderLimit 1).text ∧
      (cells.unfolding [] value).IsWhole ∧
      ((cells.unfolding [] value).cut renderLimit 1).preorder =
        (cells.unfolding [] value).preorder.take renderLimit ∧
      ((cells.unfolding [] value).cut renderLimit 1).size ≤ renderLimit ∧
      ((cells.unfolding [] value).size ≤ renderLimit →
        cells.render value = (cells.unfolding [] value).text) := by
  have hrender : cells.render value = ((cells.unfolding [] value).cut renderLimit 1).text := by
    have hpage : cells.renderOnto [] renderLimit ⟨"", renderLimit + 1 - 1⟩ value =
        written renderLimit 1 "" (cells.unfolding [] value) :=
      renderOnto_eq [] "" value (Nat.le_refl renderLimit)
    rw [Nat.add_sub_cancel] at hpage
    rw [render, hpage, written, String.empty_append]
  have hpreorder := Unfolding.preorder_cut renderLimit 1 (cells.unfolding [] value)
  refine ⟨hrender, isWhole_unfolding [] value, hpreorder, ?_, fun hsize => ?_⟩
  · rw [Unfolding.size, hpreorder]
    exact List.length_take_le _ _
  · rw [hrender, Unfolding.cut_eq_self _ (by omega)]

/-- A node that is linked to itself, and the reference to it that has nothing beneath it. -/
theorem render_eq_text_cut_circle :
    let cells : Cells := ⟨#[.methodCall (.new "Node") "link" [.ref 0]]⟩
    (cells.unfolding [] (.ref 0)).size = 4 ∧ cells.render (.ref 0) = "new Node.link(<cycle>)" := by
  intro cells
  have hunfolding : cells.unfolding [] (.ref 0) =
      .node (.ref 0) [.node (.methodCall (.new "Node") "link" [.ref 0])
        [.node (.new "Node") [], .node (.ref 0) []]] := by
    have hcontent : cells.content 0 = .methodCall (.new "Node") "link" [.ref 0] := rfl
    simp [unfolding, hcontent, Value.operands]
  have hsize : (cells.unfolding [] (.ref 0)).size = 4 := by
    rw [hunfolding]
    rfl
  refine ⟨hsize, ?_⟩
  rw [(render_eq_text_cut cells (.ref 0)).2.2.2.2 (by rw [hsize]; decide), hunfolding]
  decide

end Cells

end FieldFlow
