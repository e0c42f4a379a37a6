import FieldFlow.Proofs.AliasFree.Linear
import FieldFlow.Proofs.Initializers.Expression

/-!
# Evaluation of initializers

The machine evaluates compiled expressions to what they stand for.

## Main Definitions

* `Builds`: a value that unfolds to a tree through new cells only
* `Initializers.Evaluates`: code leaves values for some trees on the stack
* `Initializers.PlainCode`: code in which no call delegates to another constructor
* `Initializers.Prepared`: the parameters are in their slots

## Main Statements

* `Builds.rebind`: a call on an object that an expression has made
* `Initializers.Expr.evaluates`: every expression is evaluated to its tree

## Design Notes

A call changes the cell of its receiver, and creating an object leaves two references to one cell.
What keeps the operands that wait on the stack safe is that the value of an expression leads only to
cells that the evaluation of this expression has allocated. So the arguments of a call do not lead
to the cell of the receiver, and no expression changes a cell of an operand below.
-/

namespace FieldFlow

theorem Value.exists_eq_ref {value : Value} (h : value.isRef = true) :
    ∃ cell, value = .ref cell := by
  cases value with
  | ref cell => exact ⟨cell, rfl⟩
  | _ => cases h

/-- A value that unfolds to a tree is left as it is by further cells. -/
theorem Unfolds.agreeFrom_of_extends {cells later : Cells} {value : Value} {tree : Tree}
    (h : Unfolds cells value tree) (hextends : cells.Extends later) :
    cells.AgreeFrom later value :=
  fun cell hreach => hextends.kept cell (h.cell_lt_size hreach)

/-! ### Values through new cells -/

/-- The value unfolds to the tree, and leads only to cells from the bound on. -/
structure Builds (bound : Nat) (cells : Cells) (value : Value) (tree : Tree) : Prop where
  unfolds : Unfolds cells value tree
  bounded : ∀ cell, cells.Reaches value (.ref cell) → bound ≤ cell

namespace Builds

variable {bound smaller : Nat} {cells later : Cells} {value : Value} {tree : Tree}
variable {args : List Value} {trees : List Tree} {cell : CellId}

theorem mono (h : Builds bound cells value tree) (hle : smaller ≤ bound) :
    Builds smaller cells value tree :=
  ⟨h.unfolds, fun cell hreach => Nat.le_trans hle (h.bounded cell hreach)⟩

theorem extend (h : Builds bound cells value tree) (hextends : cells.Extends later) :
    Builds bound later value tree := by
  have hagree := h.unfolds.agreeFrom_of_extends hextends
  refine ⟨h.unfolds.frame hagree, ?_⟩
  intro cell hreach
  exact h.bounded cell (hagree.reaches_iff.1 hreach)

/-- A node leads only to what its operands lead to. -/
theorem node (unfolds : Unfolds cells value tree) (direct : value.isRef = false)
    (hoperands : ∀ operand ∈ value.operands, ∀ cell, cells.Reaches operand (.ref cell) →
      bound ≤ cell) : Builds bound cells value tree := by
  refine ⟨unfolds, ?_⟩
  intro cell hreach
  obtain ⟨operand, mem, hreach⟩ := hreach.exists_operand direct
  exact hoperands operand mem cell hreach

theorem leaf (unfolds : Unfolds cells value tree) (direct : value.isRef = false)
    (hnone : value.operands = []) : Builds bound cells value tree := by
  refine node unfolds direct ?_
  rw [hnone]
  nofun

/-- All values of a list are bounded if they build trees. -/
theorem bounded_of_mem (h : List.Forall₂ (Builds bound cells) args trees) :
    ∀ arg ∈ args, ∀ cell, cells.Reaches arg (.ref cell) → bound ≤ cell := by
  intro arg hmem
  obtain ⟨index, hindex, rfl⟩ := List.getElem_of_mem hmem
  exact ((List.forall₂_iff_get.1 h).2 index hindex (h.length_eq ▸ hindex)).bounded

/-- What a value is resolved to leads to nothing else. -/
theorem resolve (h : Builds bound cells value tree) :
    Builds bound cells (cells.resolve value) tree :=
  ⟨h.unfolds.resolve.1, fun cell hreach =>
    h.bounded cell ((Verdict.reaches_resolve value).trans hreach)⟩

/-- A reference to a new cell leads to this cell, and to what its content leads to. -/
theorem alloc (h : Builds bound cells value tree) (hle : bound ≤ cells.size) :
    Builds bound (cells.alloc value).2 (.ref cells.size) tree := by
  refine ⟨h.unfolds.alloc, ?_⟩
  intro cell hreach
  rcases Relation.ReflTransGen.cases_head hreach with heq | ⟨child, step, hreach⟩
  · cases heq
    exact hle
  · cases step with
    | operand mem => cases mem
    | content =>
      rw [Cells.content_alloc_self] at hreach
      have hagree := h.resolve.unfolds.agreeFrom_alloc value
      exact h.resolve.bounded cell (hagree.reaches_iff.1 hreach)

/-- **A call on an object with arguments that have been made after it.** They do not lead to the
cell of the object, so the call becomes its content without a circle. -/
theorem rebind (h : Builds bound cells (.ref cell) tree) (hextends : cells.Extends later)
    (hle : bound ≤ cells.size) (name : String)
    (hargs : List.Forall₂ (Builds cells.size later) args trees) :
    Builds bound (later.set cell (.methodCall (later.content cell) name args)) (.ref cell)
      (.methodCall tree name trees) := by
  have hcell : cell < cells.size := h.unfolds.covers.cell_lt_size
  have hlater : Builds bound later (.ref cell) tree := h.extend hextends
  have hapart := bounded_of_mem hargs
  refine ⟨hlater.unfolds.rebind name (hargs.imp fun _ _ harg => harg.unfolds) ?_, ?_⟩
  · intro arg hmem hreach
    exact Nat.not_lt.2 (hapart arg hmem cell hreach) hcell
  · intro other hreach
    -- What the cell leads to now, it led to before, or an argument does.
    have hothers : ∀ other, other ≠ cell →
        (later.set cell (.methodCall (later.content cell) name args)).content other =
          later.content other :=
      fun other hother => Cells.content_set_of_ne hother _
    rcases Cells.reaches_of_change hothers hreach with hreach | ⟨-, hreach⟩
    · exact hlater.bounded other hreach
    · rw [Cells.content_set_self (Nat.lt_of_lt_of_le hcell hextends.size_le)] at hreach
      obtain ⟨operand, mem, hreach⟩ := hreach.exists_operand rfl
      rcases List.mem_cons.1 mem with rfl | mem
      · exact hlater.bounded other (.head (.content cell) hreach)
      · exact Nat.le_trans hle (hapart operand mem other hreach)

end Builds

/-- Pushing a value that leads to new cells only leaves such a value on the stack. -/
theorem State.exists_push {bound : Nat} (state : State) {value : Value} {tree : Tree}
    (h : Builds bound state.cells value tree) (hle : bound ≤ state.cells.size)
    (isReference : Bool) :
    ∃ last pushed,
      state.push isReference value = { state with cells := last, stack := pushed :: state.stack } ∧
        state.cells.Extends last ∧ Builds bound last pushed tree := by
  rw [State.push]
  split
  · exact ⟨_, _, rfl, (Cells.Extends.refl _).alloc value, h.alloc hle⟩
  · exact ⟨_, _, rfl, .refl _, h⟩

namespace Initializers

open Machine (Context Transition)

variable {context : Context} {code more : List Instruction} {instruction : Instruction}
variable {state : State} {trees others : List Tree} {tree : Tree} {parameters : List Kind}
variable {initializer : String} {call : Call} {returns : Kind}

/-! ### Compiled code -/

/-- The code leaves values for the trees on the stack, and changes nothing besides but new cells. -/
def Evaluates (context : Context) (code : List Instruction) (state : State)
    (trees : List Tree) : Prop :=
  ∃ later values,
    Machine.execute context code state =
      .ok { state with cells := later, stack := values.reverse ++ state.stack } ∧
    state.cells.Extends later ∧ List.Forall₂ (Builds state.cells.size later) values trees

/-- The call is not a delegation to another constructor. -/
structure Plain (context : Context) (call : Call) : Prop where
  notSuper : ¬ Machine.Delegates context call context.superclass
  notSelf : ¬ Machine.Delegates context call context.declaringClass

theorem plain_iff : Plain context call ↔ ¬ Machine.Delegates context call context.superclass ∧
    ¬ Machine.Delegates context call context.declaringClass :=
  ⟨fun h => ⟨h.notSuper, h.notSelf⟩, fun h => ⟨h.1, h.2⟩⟩

/-- No call in the code is a delegation to another constructor. -/
def PlainCode (context : Context) (code : List Instruction) : Prop :=
  ∀ call, .invoke call ∈ code → Plain context call

theorem plainCode_append :
    PlainCode context (code ++ more) ↔ PlainCode context code ∧ PlainCode context more := by
  constructor
  · intro h
    refine ⟨?_, ?_⟩
    · intro call hmem
      exact h call (List.mem_append_left _ hmem)
    · intro call hmem
      exact h call (List.mem_append_right _ hmem)
  · rintro ⟨hcode, hmore⟩ call hmem
    rcases List.mem_append.1 hmem with hmem | hmem
    · exact hcode call hmem
    · exact hmore call hmem

theorem PlainCode.tail (h : PlainCode context (instruction :: code)) : PlainCode context code :=
  fun call hmem => h call (.tail _ hmem)

theorem PlainCode.invoke (h : PlainCode context (.invoke call :: code)) : Plain context call :=
  h call List.mem_cons_self

/-- A list of values for one tree is one value. -/
theorem exists_of_forall₂_singleton {R : Value → Tree → Prop} {values : List Value}
    (h : List.Forall₂ R values [tree]) : ∃ value, R value tree ∧ values = [value] := by
  obtain ⟨value, rest, hvalue, hrest, rfl⟩ := List.forall₂_cons_right_iff.1 h
  rw [List.forall₂_nil_right_iff] at hrest
  rw [hrest]
  exact ⟨value, hvalue, rfl⟩

namespace Evaluates

theorem nil : Evaluates context [] state [] :=
  ⟨state.cells, [], rfl, .refl _, .nil⟩

/-- Code for some trees may be followed by code for others. -/
theorem append (h : Evaluates context code state trees)
    (hmore : ∀ later stack, state.cells.Extends later →
      Evaluates context more { state with cells := later, stack } others) :
    Evaluates context (code ++ more) state (trees ++ others) := by
  obtain ⟨later, values, hexecute, hextends, hbuilds⟩ := h
  obtain ⟨last, added, hexecute', hextends', hbuilds'⟩ :=
    hmore later (values.reverse ++ state.stack) hextends
  refine ⟨last, values ++ added, ?_, hextends.trans hextends', ?_⟩
  · rw [List.reverse_append, List.append_assoc]
    exact Machine.execute_trans hexecute hexecute'
  · refine List.rel_append ?_ ?_
    · exact hbuilds.imp fun _ _ hvalue => hvalue.extend hextends'
    · exact hbuilds'.imp fun _ _ hvalue => hvalue.mono hextends.size_le

/-- The last instruction of an expression takes the values of its operands, and pushes its own. -/
theorem push (h : Evaluates context code state trees) (isReference : Bool)
    (hstep : ∀ later values, List.Forall₂ (Builds state.cells.size later) values trees →
      ∃ value, Builds state.cells.size later value tree ∧
        Transition context
          { state with cells := later, stack := values.reverse ++ state.stack } instruction
          ({ state with cells := later }.push isReference value)) :
    Evaluates context (code ++ [instruction]) state [tree] := by
  obtain ⟨later, values, hexecute, hextends, hbuilds⟩ := h
  obtain ⟨value, hvalue, htransition⟩ := hstep later values hbuilds
  obtain ⟨last, pushed, hpush, hextends', hpushed⟩ :=
    State.exists_push { state with cells := later } hvalue hextends.size_le isReference
  rw [hpush] at htransition
  exact ⟨last, [pushed], Machine.execute_trans hexecute htransition.execute,
    hextends.trans hextends', .cons hpushed .nil⟩

/-- An instruction without operands pushes a value without operands. -/
theorem leaf (isReference : Bool) {value : Value} (direct : value.isRef = false)
    (hnone : value.operands = []) (unfolds : ∀ cells, Unfolds cells value tree)
    (htransition : Transition context state instruction (state.push isReference value)) :
    Evaluates context [instruction] state [tree] := by
  have hvalue : Builds state.cells.size state.cells value tree :=
    .leaf (unfolds state.cells) direct hnone
  obtain ⟨last, pushed, hpush, hextends, hpushed⟩ :=
    state.exists_push hvalue (Nat.le_refl _) isReference
  rw [hpush] at htransition
  exact ⟨last, [pushed], htransition.execute, hextends, .cons hpushed .nil⟩

theorem field (h : Evaluates context code state [tree]) (name : String) (kind : Kind) :
    Evaluates context (code ++ [.getField name kind]) state [.fieldRead tree name] := by
  refine h.push kind.isReference ?_
  intro later values hbuilds
  obtain ⟨receiver, hreceiver, rfl⟩ := exists_of_forall₂_singleton hbuilds
  refine ⟨.fieldRead (later.resolve receiver) name, ?_, .getField name kind rfl⟩
  refine .node (.fieldRead name hreceiver.resolve.unfolds) rfl ?_
  intro operand mem
  rw [List.mem_singleton.1 mem]
  exact hreceiver.resolve.bounded

theorem binaryOp {second : Tree} (h : Evaluates context code state [tree, second])
    (operator : Operator) :
    Evaluates context (code ++ [.binaryOp operator]) state [.binaryOp operator tree second] := by
  refine h.push false ?_
  intro later values hbuilds
  obtain ⟨left, rest, hleft, hrest, rfl⟩ := List.forall₂_cons_right_iff.1 hbuilds
  obtain ⟨right, hright, rfl⟩ := exists_of_forall₂_singleton hrest
  refine ⟨.binaryOp operator left right, ?_, .binaryOp operator rfl⟩
  refine .node (.binaryOp operator hleft.unfolds hright.unfolds) rfl ?_
  intro operand mem
  rcases List.mem_cons.1 mem with rfl | mem
  · exact hleft.bounded
  · rw [List.mem_singleton.1 mem]
    exact hright.bounded

theorem staticCall (h : Evaluates context code state trees) (hplain : Plain context call)
    (static : call.isStatic = true) (hcount : trees.length = call.args.length)
    (hreturns : call.returns = some returns) :
    Evaluates context (code ++ [.invoke call]) state
      [.staticCall call.owner call.name trees] := by
  refine h.push returns.isReference ?_
  intro later values hbuilds
  refine ⟨.staticCall call.owner call.name values, ?_, ?_⟩
  · have hunfolds := hbuilds.imp fun _ _ hvalue => hvalue.unfolds
    exact .node (.callStatic call.owner call.name hunfolds) rfl (Builds.bounded_of_mem hbuilds)
  · have htransition : Transition context
        { state with cells := later, stack := values.reverse ++ state.stack } (.invoke call)
        (Machine.leave call.returns (.staticCall call.owner call.name values)
          { state with cells := later }) :=
      .staticCall hplain.notSuper hplain.notSelf static (hbuilds.length_eq.trans hcount) rfl
    rw [hreturns] at htransition
    exact htransition

/-- A call on the value of an expression changes its cell, or makes a new value. Whichever it does,
there is a value for the call on top of the stack then. -/
theorem exists_call {later last : Cells} {receiver : Value} {args : List Value}
    (hextends : state.cells.Extends later) (hreceiver : Builds state.cells.size later receiver tree)
    (hextends' : later.Extends last) (hargs : List.Forall₂ (Builds later.size last) args trees)
    (hplain : Plain context call) (static : call.isStatic = false)
    (hcount : trees.length = call.args.length) (hreturns : call.returns = some returns) :
    ∃ cells value, state.cells.Extends cells ∧
      Builds state.cells.size cells value (.methodCall tree call.name trees) ∧
        Transition context
          { state with cells := last, stack := args.reverse ++ receiver :: state.stack }
          (.invoke call) { state with cells, stack := value :: state.stack } := by
  have hboth := hextends.trans hextends'
  have hlength := hargs.length_eq.trans hcount
  cases hdirect : receiver.isRef with
  | true =>
    obtain ⟨cell, rfl⟩ := Value.exists_eq_ref hdirect
    have hcell := hreceiver.rebind hextends' hextends.size_le call.name hargs
    have htransition : Transition context
        { state with cells := last, stack := args.reverse ++ .ref cell :: state.stack }
        (.invoke call)
        (Machine.leave call.returns (.ref cell) ({ state with cells := last }.rebind cell
          (.methodCall (last.content cell) call.name args))) :=
      .cellCall hplain.notSuper hplain.notSelf static hlength rfl
    rw [hreturns, Machine.leave, State.push, Value.isRef, Bool.not_true, Bool.and_false]
      at htransition
    exact ⟨_, .ref cell, hboth.set (hreceiver.bounded cell (.refl _)) _, hcell, htransition⟩
  | false =>
    have hunfolds := hargs.imp fun _ _ harg => harg.unfolds
    have hlater := hreceiver.extend hextends'
    have hcall : Builds state.cells.size last (.methodCall receiver call.name args)
        (.methodCall tree call.name trees) := by
      refine .node (.call call.name hlater.unfolds hunfolds) rfl ?_
      intro operand mem
      rcases List.mem_cons.1 mem with rfl | mem
      · exact hlater.bounded
      · intro cell hreach
        exact Nat.le_trans hextends.size_le (Builds.bounded_of_mem hargs operand mem cell hreach)
    obtain ⟨cells, pushed, hpush, hextends'', hpushed⟩ :=
      State.exists_push { state with cells := last } hcall hboth.size_le returns.isReference
    have htransition : Transition context
        { state with cells := last, stack := args.reverse ++ receiver :: state.stack }
        (.invoke call)
        (Machine.leave call.returns (.methodCall receiver call.name args)
          { state with cells := last }) :=
      .valueCall hplain.notSuper hplain.notSelf static hlength hdirect rfl
    rw [hreturns] at htransition
    exact ⟨cells, pushed, hboth.trans hextends'', hpushed, hpush ▸ htransition⟩

theorem methodCall (h : Evaluates context code state [tree])
    (hmore : ∀ later stack, state.cells.Extends later →
      Evaluates context more { state with cells := later, stack } trees)
    (hplain : Plain context call) (static : call.isStatic = false)
    (hcount : trees.length = call.args.length) (hreturns : call.returns = some returns) :
    Evaluates context (code ++ more ++ [.invoke call]) state
      [.methodCall tree call.name trees] := by
  obtain ⟨later, values, hexecute, hextends, hbuilds⟩ := h
  obtain ⟨receiver, hreceiver, rfl⟩ := exists_of_forall₂_singleton hbuilds
  obtain ⟨last, args, hexecute', hextends', hargs⟩ :=
    hmore later ([receiver].reverse ++ state.stack) hextends
  obtain ⟨cells, value, hcells, hvalue, htransition⟩ :=
    exists_call hextends hreceiver hextends' hargs hplain static hcount hreturns
  have hoperands := Machine.execute_trans hexecute hexecute'
  exact ⟨cells, [value], Machine.execute_trans hoperands htransition.execute, hcells,
    .cons hvalue .nil⟩

/-- The initializer of a new object is called on one of two references to it, and the other is its
value. -/
theorem new (className : String)
    (hargs : ∀ later stack, state.cells.Extends later →
      Evaluates context more { state with cells := later, stack } trees)
    (hplain : Plain context call) (static : call.isStatic = false)
    (hcount : trees.length = call.args.length) (hreturns : call.returns = none) :
    Evaluates context (.new className :: .dup :: (more ++ [.invoke call])) state
      [.methodCall (.new className) call.name trees] := by
  have hextends := (Cells.Extends.refl state.cells).alloc (.new className)
  have hnew : Builds state.cells.size (state.cells.alloc (.new className)).2
      (.ref state.cells.size) (.new className) :=
    (Builds.leaf (.new className) rfl rfl).alloc (Nat.le_refl _)
  obtain ⟨last, values, hexecute, hextends', hvalues⟩ :=
    hargs _ (.ref state.cells.size :: .ref state.cells.size :: state.stack) hextends
  have hcall : Transition context
      { state with
        cells := last
        stack := values.reverse ++ .ref state.cells.size :: .ref state.cells.size :: state.stack }
      (.invoke call)
      (Machine.leave call.returns (.ref state.cells.size)
        ({ state with cells := last, stack := .ref state.cells.size :: state.stack }.rebind
          state.cells.size (.methodCall (last.content state.cells.size) call.name values))) :=
    .cellCall hplain.notSuper hplain.notSelf static (hvalues.length_eq.trans hcount) rfl
  rw [hreturns] at hcall
  have hresult := hnew.rebind hextends' hextends.size_le call.name hvalues
  refine ⟨_, [.ref state.cells.size], ?_, ?_, .cons hresult .nil⟩
  · have hmade : Transition context state (.new className)
        { state with
          cells := (state.cells.alloc (.new className)).2
          stack := .ref state.cells.size :: state.stack } := .new className
    exact hmade.execute_cons
      ((Transition.dup rfl).execute_cons (Machine.execute_trans hexecute hcall.execute))
  · exact (hextends.trans hextends').set (Nat.le_refl _) _

end Evaluates

/-! ### Expressions -/

/-- The slots hold the object under construction and the parameters, where loads look for them. -/
structure Prepared (parameters : List Kind) (state : State) : Prop where
  this : state.locals[0]? = some .this
  parameter : ∀ index : Fin parameters.length, ∃ value,
    state.locals[(UInt16.ofNat (Body.slotBefore parameters index)).toNat]? = some value ∧
      Unfolds state.cells value (.parameter index (parameters.get index))

/-- Further cells do not matter to the slots. -/
theorem Prepared.extend (h : Prepared parameters state) {later : Cells}
    (hextends : state.cells.Extends later) (stack : List Value) :
    Prepared parameters { state with cells := later, stack } where
  this := h.this
  parameter := by
    intro index
    obtain ⟨value, hheld, hvalue⟩ := h.parameter index
    exact ⟨value, hheld, hvalue.frame (hvalue.agreeFrom_of_extends hextends)⟩

/-- A parameter is loaded in a cell of its own, or as it is. -/
theorem Evaluates.parameter (h : Prepared parameters state) (index : Fin parameters.length) :
    Evaluates context [.loadLocal (.ofNat (Body.slotBefore parameters index))] state
      [.parameter index (parameters.get index)] := by
  obtain ⟨value, hheld, hvalue⟩ := h.parameter index
  cases hvalue with
  | @cell cell _ direct hcontent =>
    -- The fresh cell gets the content of the cell in the slot.
    have halloc : state.cells.alloc (.ref cell) = state.cells.alloc (state.cells.content cell) := by
      rw [Cells.alloc, Cells.alloc, Cells.resolve_ref, Cells.resolve_of_isRef_eq_false direct]
    have hloaded : Builds state.cells.size (state.cells.alloc (.ref cell)).2
        (.ref state.cells.size) (.parameter index (parameters.get index)) := by
      generalize state.cells.content cell = content at direct halloc hcontent
      rw [halloc]
      cases hcontent with
      | cell => cases direct
      | parameter =>
        exact (Builds.leaf (.parameter index (parameters.get index)) rfl rfl).alloc (Nat.le_refl _)
    refine ⟨_, [.ref state.cells.size], ?_, (Cells.Extends.refl _).alloc _, .cons hloaded .nil⟩
    exact (Transition.loadCell hheld).execute
  | parameter =>
    exact .leaf false rfl rfl (fun _ => .parameter index (parameters.get index))
      (.loadValue hheld rfl)

variable (initializer)

mutual

/-- **Every expression is evaluated to its tree**, in any state in which the parameters are in their
slots, as long as none of its calls delegates. -/
theorem Expr.evaluates {state : State} (h : Prepared parameters state) :
    (expr : Expr parameters) → PlainCode context (expr.code initializer) →
      Evaluates context (expr.code initializer) state [expr.tree initializer]
  | .this, _ => .leaf false rfl rfl (fun _ => .this) (.loadValue h.this rfl)
  | .parameter index, _ => .parameter h index
  | .null, _ => .leaf true rfl rfl (fun _ => .constant .null) .pushNull
  | .int value, _ => .leaf false rfl rfl (fun _ => .int value) (.pushInt value)
  | .constant constant, _ =>
    .leaf constant.isReference rfl rfl (fun _ => .constant constant) (.pushConst constant)
  | .staticField owner name kind, _ =>
    .leaf kind.isReference rfl rfl (fun _ => .staticField owner name) (.getStatic owner name kind)
  | .field receiver name kind, hplain => by
    rw [Expr.code, plainCode_append] at hplain
    rw [Expr.code]
    exact (receiver.evaluates h hplain.1).field name kind
  | .binaryOp operator left right, hplain => by
    rw [Expr.code, plainCode_append, plainCode_append] at hplain
    obtain ⟨⟨hleft, hright⟩, -⟩ := hplain
    rw [Expr.code]
    refine ((left.evaluates h hleft).append ?_).binaryOp operator
    intro later stack hextends
    exact right.evaluates (h.extend hextends stack) hright
  | .staticCall owner name args returns, hplain => by
    rw [Expr.code, plainCode_append] at hplain
    obtain ⟨hargs, hcall⟩ := hplain
    rw [Expr.code]
    exact (args.evaluates h hargs).staticCall hcall.invoke rfl (args.length_trees initializer) rfl
  | .methodCall kind receiver owner name args returns, hplain => by
    rw [Expr.code, plainCode_append, plainCode_append] at hplain
    obtain ⟨⟨hreceiver, hargs⟩, hcall⟩ := hplain
    rw [Expr.code]
    refine (receiver.evaluates h hreceiver).methodCall ?_ hcall.invoke ?_
      (args.length_trees initializer) rfl
    · intro later stack hextends
      exact args.evaluates (h.extend hextends stack) hargs
    · exact beq_eq_false_iff_ne.2 kind.2
  | .new className args, hplain => by
    rw [Expr.code] at hplain ⊢
    obtain ⟨hargs, hcall⟩ := plainCode_append.1 hplain.tail.tail
    refine .new className ?_ hcall.invoke rfl (args.length_trees initializer) rfl
    intro later stack hextends
    exact args.evaluates (h.extend hextends stack) hargs

/-- Arguments are evaluated one after another. -/
theorem Args.evaluates {state : State} (h : Prepared parameters state) :
    (args : Args parameters) → PlainCode context (args.code initializer) →
      Evaluates context (args.code initializer) state (args.trees initializer)
  | .nil, _ => .nil
  | .cons kind arg rest, hplain => by
    rw [Args.code, plainCode_append] at hplain
    rw [Args.code]
    refine (arg.evaluates h hplain.1).append ?_
    intro later stack hextends
    exact rest.evaluates (h.extend hextends stack) hplain.2

end

end Initializers

end FieldFlow
