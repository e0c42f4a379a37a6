import FieldFlow.Analysis
import FieldFlow.Proofs.AliasFree.Bits
import FieldFlow.Proofs.Verdict

/-!
# Evaluation to trees

A body evaluated to finite expressions without cells, in which a call has no effect on anything but
its result, and the comparison of the analysis with the verdicts on these expressions.

## Main Definitions

* `Tree`: an expression without references
* `AliasFree.trees`: the domain of trees
* `Tree.analyze`: the evaluation to trees, and the verdicts on the trees of the assigned fields
* `Covers`: a value is a tree with further method calls around it, at the top or anywhere inside

## Main Statements

* `Covers.binding?`, `Covers.not_reachesParameter`: verdicts pass from a value to its tree
* `exists_tree_analysis`: what the analysis accepts, the verdicts on trees accept

## Design Notes

A cell that is shared by several entries collects the calls that are made through any of them. So
a value is never exactly the tree of the evaluation without sharing, but it still has this tree
inside: each of its nodes may have calls around it that the tree does not have. The relation is
inductive, and the tree is finite, so it also says something about contents of cells that refer to
each other in a circle.
-/

namespace FieldFlow

/-- An expression over the object under construction and the parameters. -/
inductive Tree where
  | this
  | parameter (index : Nat) (kind : Kind)
  | constant (constant : Constant)
  | int (value : Int64)
  | new (className : String)
  | methodCall (receiver : Tree) (name : String) (args : List Tree)
  | staticCall (owner name : String) (args : List Tree)
  | fieldRead (receiver : Tree) (name : String)
  | staticField (owner name : String)
  | binaryOp (operator : Operator) (left right : Tree)

namespace Tree

/-- The tree as a value that mentions no cell. -/
def toValue : Tree → Value
  | this => .this
  | parameter index kind => .parameter index kind
  | constant literal => .constant literal
  | int value => .int value
  | new className => .new className
  | methodCall receiver name args => .methodCall receiver.toValue name (args.map toValue)
  | staticCall owner name args => .staticCall owner name (args.map toValue)
  | fieldRead receiver name => .fieldRead receiver.toValue name
  | staticField owner name => .staticField owner name
  | binaryOp operator left right => .binaryOp operator left.toValue right.toValue

/-- A tree denotes the object under construction if it is that object, or a method call whose
receiver denotes it. -/
def denotesThis : Tree → Bool
  | this => true
  | methodCall receiver _ _ => receiver.denotesThis
  | _ => false

theorem isRef_toValue (tree : Tree) : tree.toValue.isRef = false := by
  cases tree <;> simp [toValue, Value.isRef]

theorem resolve_toValue (cells : Cells) (tree : Tree) :
    cells.resolve tree.toValue = tree.toValue :=
  Cells.resolve_of_isRef_eq_false tree.isRef_toValue

end Tree

namespace AliasFree

/-- Every instruction makes the tree of its expression. -/
def trees : Domain Tree where
  this := .this
  parameter := .parameter
  constant := .constant
  int := .int
  new := .new
  methodCall := .methodCall
  staticCall := .staticCall
  fieldRead := .fieldRead
  staticField := .staticField
  binaryOp := .binaryOp
  denotesThis := Tree.denotesThis

end AliasFree

/-- Evaluates a body to trees and decides on the fields that it has assigned. -/
def Tree.analyze (body : Body) (options : Options) : Except AnalysisError Analysis := do
  let state ← AliasFree.run AliasFree.trees body options
  let mapping ← Mapping.ofAssignments .empty
    (state.assignments.map fun assigned => (assigned.1, assigned.2.toValue))
  pure ⟨mapping, state.parameterNames⟩

/-! ### Values around trees -/

/-- The value is the tree with any number of method calls around each of its nodes. -/
inductive Covers (cells : Cells) : Value → Tree → Prop
  | cell {cell : CellId} {tree : Tree} (h : Covers cells (cells.content cell) tree) :
      Covers cells (.ref cell) tree
  /-- A call that the tree does not have. -/
  | layer {receiver : Value} {tree : Tree} (name : String) (args : List Value)
      (h : Covers cells receiver tree) : Covers cells (.methodCall receiver name args) tree
  | this : Covers cells .this .this
  | parameter (index : Nat) (kind : Kind) :
      Covers cells (.parameter index kind) (.parameter index kind)
  | constant (constant : Constant) : Covers cells (.constant constant) (.constant constant)
  | int (value : Int64) : Covers cells (.int value) (.int value)
  | new (className : String) : Covers cells (.new className) (.new className)
  | methodCall {receiver : Value} {tree : Tree} {args : List Value} {trees : List Tree}
      (name : String) (h : Covers cells receiver tree) (length : args.length = trees.length)
      (each : ∀ arg tree, (arg, tree) ∈ args.zip trees → Covers cells arg tree) :
      Covers cells (.methodCall receiver name args) (.methodCall tree name trees)
  | staticCall {args : List Value} {trees : List Tree} (owner name : String)
      (length : args.length = trees.length)
      (each : ∀ arg tree, (arg, tree) ∈ args.zip trees → Covers cells arg tree) :
      Covers cells (.staticCall owner name args) (.staticCall owner name trees)
  | fieldRead {receiver : Value} {tree : Tree} (name : String) (h : Covers cells receiver tree) :
      Covers cells (.fieldRead receiver name) (.fieldRead tree name)
  | staticField (owner name : String) :
      Covers cells (.staticField owner name) (.staticField owner name)
  | binaryOp {left right : Value} {tree second : Tree} (operator : Operator)
      (first : Covers cells left tree) (other : Covers cells right second) :
      Covers cells (.binaryOp operator left right) (.binaryOp operator tree second)

namespace Covers

variable {cells later : Cells} {value : Value} {tree : Tree}

/-- A value that covers a tree only leads to allocated cells on the way to it. -/
theorem cell_lt_size {cell : CellId} (h : Covers cells (.ref cell) tree) : cell < cells.size := by
  generalize hvalue : Value.ref cell = value at h
  induction h generalizing cell with
  | @cell other tree h ih =>
    cases hvalue
    -- A cell that was never allocated holds itself, so the derivation would not end.
    by_contra hsize
    exact hsize (ih (Cells.content_of_size_le (Nat.not_lt.1 hsize)).symm)
  | _ => cases hvalue

/-- Calls around a value do not uncover anything. -/
theorem wraps {outer : Value} (h : Covers cells value tree) (hwraps : value.Wraps outer) :
    Covers cells outer tree := by
  induction hwraps with
  | same => exact h
  | call name args _ ih => exact ih.layer name args

theorem grows (h : Covers cells value tree) (hgrows : cells.Grows later) :
    Covers later value tree := by
  induction h with
  | cell h ih => exact .cell (ih.wraps (hgrows.wraps _ (Covers.cell h).cell_lt_size))
  | layer name args _ ih => exact ih.layer name args
  | this => exact .this
  | parameter index kind => exact .parameter index kind
  | constant constant => exact .constant constant
  | int value => exact .int value
  | new className => exact .new className
  | methodCall name _ length _ ih each => exact .methodCall name ih length each
  | staticCall owner name length _ each => exact .staticCall owner name length each
  | fieldRead name _ ih => exact .fieldRead name ih
  | staticField owner name => exact .staticField owner name
  | binaryOp operator _ _ first other => exact .binaryOp operator first other

/-- The chain of receivers of the value goes through that of the tree. -/
theorem tellsThis (h : Covers cells value tree) :
    AliasFree.TellsThis cells value tree.denotesThis := by
  induction h with
  | cell _ ih => exact AliasFree.bits_abstracts.ref_iff.2 ih
  | layer name args _ ih =>
    obtain ⟨passed, root, hroot, hbit⟩ := ih
    exact ⟨passed, root, hroot.receiver name args, hbit⟩
  | methodCall name _ _ _ ih _ =>
    obtain ⟨passed, root, hroot, hbit⟩ := ih
    exact ⟨passed, root, hroot.receiver name _, hbit⟩
  | _ => exact AliasFree.tellsThis_of_isRoot rfl

end Covers

theorem AliasFree.trees_abstracts : Abstracts trees Covers where
  grows := Covers.grows
  cell_lt_size := Covers.cell_lt_size
  ref_iff := ⟨fun h => by cases h with | cell h => exact h, .cell⟩
  this _ := .this
  parameter _ := .parameter
  constant _ := .constant
  int _ := .int
  new _ := .new
  methodCall := fun name h hargs =>
    .methodCall name h hargs.length_eq fun _ _ => (List.forall₂_iff_zip.1 hargs).2
  staticCall := fun owner name hargs =>
    .staticCall owner name hargs.length_eq fun _ _ => (List.forall₂_iff_zip.1 hargs).2
  fieldRead := .fieldRead
  staticField _ := .staticField
  binaryOp := .binaryOp
  denotesThis h := bits_abstracts.denotesThis h.tellsThis

/-! ### Verdicts -/

namespace Covers

variable {cells : Cells} {value : Value} {tree : Tree} {binding : Binding}

theorem resolve (h : Covers cells value tree) : Covers cells (cells.resolve value) tree :=
  AliasFree.trees_abstracts.resolve h

/-- Every tree of a list belongs to a value of a list of the same length. -/
theorem exists_mem_zip {args : List Value} {trees : List Tree}
    (length : args.length = trees.length) (h : tree ∈ trees) :
    ∃ arg ∈ args, (arg, tree) ∈ args.zip trees := by
  obtain ⟨index, hindex, rfl⟩ := List.getElem_of_mem h
  have hzip : index < (args.zip trees).length := by
    rw [List.length_zip]
    omega
  have hmem := List.getElem_mem hzip
  rw [List.getElem_zip] at hmem
  exact ⟨_, List.getElem_mem _, hmem⟩

/-- A parameter in the tree can be reached from the value. -/
theorem reachesParameter (h : Covers cells value tree)
    (hmentions : tree.toValue.mentionsParameter = true) : cells.ReachesParameter value := by
  induction h with
  | cell _ ih => exact (ih hmentions).head (.content _)
  | layer name args _ ih => exact (ih hmentions).head (.operand List.mem_cons_self)
  | parameter index kind => exact ⟨index, kind, .refl _⟩
  | methodCall name _ length each ih iheach =>
    rw [Tree.toValue, Value.mentionsParameter_methodCall, Bool.or_eq_true, List.any_map,
      List.any_eq_true] at hmentions
    rcases hmentions with hmentions | ⟨tree, htree, hmentions⟩
    · exact (ih hmentions).head (.operand List.mem_cons_self)
    · obtain ⟨arg, harg, hzip⟩ := exists_mem_zip length htree
      exact (iheach arg tree hzip hmentions).head (.operand (.tail _ harg))
  | staticCall owner name length each iheach =>
    rw [Tree.toValue, Value.mentionsParameter_staticCall, List.any_map,
      List.any_eq_true] at hmentions
    obtain ⟨tree, htree, hmentions⟩ := hmentions
    obtain ⟨arg, harg, hzip⟩ := exists_mem_zip length htree
    exact (iheach arg tree hzip hmentions).head (.operand harg)
  | fieldRead name _ ih =>
    rw [Tree.toValue, Value.mentionsParameter] at hmentions
    exact (ih hmentions).head (.operand List.mem_cons_self)
  | binaryOp operator _ _ ihfirst ihother =>
    rw [Tree.toValue, Value.mentionsParameter, Bool.or_eq_true] at hmentions
    rcases hmentions with hmentions | hmentions
    · exact (ihfirst hmentions).head (.operand List.mem_cons_self)
    · exact (ihother hmentions).head (.operand (.tail _ List.mem_cons_self))
  | _ => simp [Tree.toValue, Value.mentionsParameter] at hmentions

/-- What is a parameter behind at most one reference is that parameter in the tree. -/
theorem parameter? (h : Covers cells value tree)
    (hparameter : Verdict.parameter? (cells.resolve value) = some binding) :
    Verdict.parameter? (Cells.empty.resolve tree.toValue) = some binding := by
  have hresolved := h.resolve
  rw [Verdict.parameter?_eq_some_iff] at hparameter ⊢
  rw [hparameter] at hresolved
  cases hresolved
  rw [Tree.resolve_toValue, Tree.toValue]

/-- **What passes a parameter on, passes it on in the tree.** -/
theorem binding? (h : Covers cells value tree)
    (hbinding : Verdict.binding? cells value = some binding) :
    Verdict.binding? .empty tree.toValue = some binding := by
  unfold Verdict.binding? at hbinding
  split at hbinding
  next index kind =>
    cases h
    rw [Tree.toValue]
    exact hbinding
  next owner name arg =>
    split at hbinding
    next hboxing =>
      cases h with
      | @staticCall _ trees _ _ length each =>
        obtain ⟨tree, rfl⟩ := List.length_eq_one_iff.1 length.symm
        have harg := (each arg tree List.mem_cons_self).parameter? hbinding
        simpa [Tree.toValue, Verdict.binding?, hboxing] using harg
    next => cases hbinding
  next receiver name =>
    obtain ⟨hparameter, hunboxing⟩ := Option.filter_eq_some_iff.1 hbinding
    cases h with
    | layer _ _ h =>
      -- The tree lost the unboxing, and is the parameter itself.
      have htree := h.parameter? hparameter
      rw [Tree.resolve_toValue, Verdict.parameter?_eq_some_iff] at htree
      rw [htree]
      rfl
    | methodCall _ h length _ =>
      obtain rfl := List.length_eq_zero_iff.1 length.symm
      rw [Tree.toValue]
      exact Option.filter_eq_some_iff.2 ⟨h.parameter? hparameter, hunboxing⟩
  next => cases hbinding

/-- **What depends on no parameter, does not in the tree.** -/
theorem not_reachesParameter (h : Covers cells value tree)
    (hindependent : ¬ cells.ReachesParameter value) :
    ¬ Cells.empty.ReachesParameter tree.toValue := by
  rw [← Cells.dependsOnParameter_iff, Cells.dependsOnParameter_empty]
  exact fun hmentions => hindependent (h.reachesParameter hmentions)

/-- The verdict on a value that is accepted is the verdict on its tree. -/
theorem verdict_eq (h : Covers cells value tree)
    (haccepted : Verdict.of cells (cells.resolve value) ≠ .derived) :
    Verdict.of .empty (Cells.empty.resolve tree.toValue) =
      Verdict.of cells (cells.resolve value) := by
  rw [Tree.resolve_toValue]
  cases hverdict : Verdict.of cells (cells.resolve value) with
  | bound binding =>
    rw [Verdict.of_eq_bound_iff] at hverdict ⊢
    exact h.resolve.binding? hverdict
  | independent =>
    rw [Verdict.of_eq_independent_iff] at hverdict ⊢
    exact h.resolve.not_reachesParameter hverdict
  | derived => exact absurd hverdict haccepted

end Covers

/-- Trees that are covered by the assigned values of a mapping have a mapping of the same fields. -/
theorem exists_mapping_of_covers {cells : Cells} {assigned : List (String × Value)}
    {described : List (String × Tree)}
    (h : List.Forall₂ (fun value tree => value.1 = tree.1 ∧ Covers cells value.2 tree.2)
      assigned described)
    {mapping : Mapping} (hmapping : Mapping.ofAssignments cells assigned = .ok mapping) :
    ∃ plain, Mapping.ofAssignments .empty
        (described.map fun assigned => (assigned.1, assigned.2.toValue)) = .ok plain ∧
      plain.fields = mapping.fields := by
  induction h generalizing mapping with
  | nil =>
    cases hmapping
    exact ⟨_, rfl, rfl⟩
  | @cons value tree assigned described same _ ih =>
    obtain ⟨field, value⟩ := value
    obtain ⟨field, tree⟩ := tree
    obtain ⟨rfl, hcovers⟩ := same
    obtain ⟨later, hlater, hhead⟩ := Mapping.ofAssignments_cons_eq_ok hmapping
    obtain ⟨plain, hplain, hfields⟩ := ih hlater
    have hverdict := hcovers.verdict_eq
    rw [List.map_cons, Mapping.ofAssignments, hplain]
    rcases hhead with ⟨binding, hbound, hmapping⟩ | ⟨hindependent, hmapping⟩
    · rw [hbound] at hverdict
      rw [hverdict (by simp), hmapping, ← hfields]
      exact ⟨_, rfl, rfl⟩
    · rw [hindependent] at hverdict
      rw [hverdict (by simp), hmapping, ← hfields]
      exact ⟨_, rfl, rfl⟩

/-- **What the analysis accepts is accepted without sharing.** If the analysis of a body succeeds,
the evaluation of the body to trees and the verdicts on these trees succeed, too, with the same
parameter for each field, the same fields left out, and the same names of the parameters. -/
theorem exists_tree_analysis (body : Body) (options : Options) (analysis : Analysis)
    (h : body.analyze options = .ok analysis) :
    ∃ plain, Tree.analyze body options = .ok plain ∧
      plain.mapping.fields = analysis.mapping.fields ∧
      plain.parameterNames = analysis.parameterNames := by
  obtain ⟨state, hrun, h⟩ := bind_eq_ok.1 h
  obtain ⟨mapping, hmapping, h⟩ := bind_eq_ok.1 h
  cases h
  obtain ⟨abstract, hrun', hsimulates⟩ :=
    (AliasFree.run_agree AliasFree.trees_abstracts body options).exists_of_eq_ok hrun
  obtain ⟨plain, hplain, hfields⟩ := exists_mapping_of_covers hsimulates.assignments hmapping
  refine ⟨⟨plain, abstract.parameterNames⟩, ?_, hfields, hsimulates.parameterNames.symm⟩
  rw [Tree.analyze, hrun']
  exact bind_eq_ok.2 ⟨abstract, rfl, bind_eq_ok.2 ⟨plain, hplain, rfl⟩⟩

/-- A constructor that stores its parameter after it has called a method through another reference
to it. -/
def countUnboxed : Body where
  declaringClass := "Counter"
  superclass := "java.lang.Object"
  parameters := [.reference "java.lang.Integer"]
  instructions := [
    .loadLocal 0,
    .invoke ⟨.special, "java.lang.Object", "<init>", [], none⟩,
    .loadLocal 0,
    .loadLocal 1,
    .dup,
    .invoke ⟨.virtual, "java.lang.Integer", "intValue", [], some .int⟩,
    .pop,
    .putField "count",
    .returnVoid]

theorem exists_tree_analysis_countUnboxed :
    ∃ plain, Tree.analyze countUnboxed {} = .ok plain ∧
      plain.mapping.fields = Table.empty.insert "count" ⟨0, .reference "java.lang.Integer"⟩ ∧
      plain.parameterNames = none := by
  -- The cell holds the unboxed parameter, the tree is the parameter itself.
  have hanalyze : countUnboxed.analyze {} = .ok
      ⟨⟨Table.empty.insert "count" ⟨0, .reference "java.lang.Integer"⟩, []⟩, none⟩ := by
    with_unfolding_all rfl
  exact exists_tree_analysis countUnboxed {} _ hanalyze

end FieldFlow
