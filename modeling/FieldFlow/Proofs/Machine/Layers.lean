import FieldFlow.Proofs.Machine.WellFormed
import FieldFlow.Proofs.Value.Root

/-!
# Layers of calls

A cell is never forgotten and never overwritten: all that can happen to its content is that a method
call is put around it. What this leaves as it was, of every value over the cells.

## Main Definitions

* `Machine.CallsThrough`: an instruction calls a method through a reference to a cell

## Main Statements

* `Machine.Transition.content_eq_or_called`: an instruction puts one call around the content of the
  cell through which it calls, and changes no other content
* `Cells.Reaches.grows`: what can be reached from a value can still be reached when cells have grown
* `State.Regular.exists_rootedAt`: every value over the cells of a run has a root
* `State.Regular.reaches_root`: the root is reached from the value before its cells grow
* `Machine.Visits.contents_only_wrapped`: two states of a run compared

## Design Notes

Contents may refer to each other in a circle, but never through a receiver: the receiver of a call
in a cell is a content and no reference. So the chain of receivers of a value passes at most one
cell, and the value has a root whatever circles its arguments are on.
-/

namespace FieldFlow

namespace Cells

variable {cells later : Cells} {value target inner outer root : Value} {passed : Nat}

/-- A value can be reached from the calls around it. -/
theorem reaches_of_wraps (h : inner.Wraps outer) : cells.Reaches outer inner := by
  induction h with
  | same => exact .refl _
  | call name args _ ih => exact .head (.operand List.mem_cons_self) ih

/-- **What can be reached from a value can still be reached when cells have grown.** -/
theorem Reaches.grows (h : cells.Reaches value target) (hgrows : cells.Grows later) :
    later.Reaches value target := by
  induction h with
  | refl => exact .refl _
  | tail _ step ih =>
    cases step with
    | operand mem => exact ih.trans (.head (.operand mem) (.refl _))
    | content cell =>
      by_cases hcell : cell < cells.size
      · -- The content is still there, below the calls around it.
        have hbelow : later.Reaches (later.content cell) (cells.content cell) :=
          reaches_of_wraps (hgrows.wraps cell hcell)
        exact ih.trans (.head (.content cell) hbelow)
      · rw [content_of_size_le (Nat.not_lt.1 hcell)]
        exact ih

/-- The same for parameters. -/
theorem ReachesParameter.grows (h : cells.ReachesParameter value) (hgrows : cells.Grows later) :
    later.ReachesParameter value := by
  obtain ⟨index, kind, hreach⟩ := h
  exact ⟨index, kind, hreach.grows hgrows⟩

/-- A chain of direct receivers below anything but a reference passes no cell. -/
theorem rootedAt_of_directReceivers (h : value.DirectReceivers) (direct : value.isRef = false) :
    ∃ root, cells.RootedAt 0 value root := by
  induction value using Value.inductionOnOperands with
  | node value ih =>
    cases value with
    | methodCall receiver name args =>
      have hreceiver : receiver.isRef = false := (Value.throughout_iff.1 h).1 receiver rfl
      have hmem : receiver ∈ (Value.methodCall receiver name args).operands := List.mem_cons_self
      obtain ⟨root, hroot⟩ := ih receiver hmem (h.operand hmem) hreceiver
      exact ⟨root, hroot.receiver name args⟩
    | ref cell => cases direct
    | _ => exact ⟨_, .root rfl⟩

theorem RootedAt.reaches (h : cells.RootedAt passed value root) : cells.Reaches value root := by
  induction h with
  | root _ => exact .refl _
  | cell _ ih => exact .head (.content _) ih
  | receiver name args _ ih => exact .head (.operand List.mem_cons_self) ih

/-- A reference has the root of what it stands for. -/
theorem RootedAt.of_resolve (h : cells.RootedAt passed (cells.resolve value) root) :
    ∃ passed', cells.RootedAt passed' value root := by
  cases value with
  | ref cell => exact ⟨passed + 1, .cell h⟩
  | _ => exact ⟨passed, h⟩

end Cells

/-- **Every value over the cells of a regular state has a root**, also if it is no value of the
state and calls a method on a reference. -/
theorem State.Regular.exists_rootedAt {state : State} {value : Value} (hstate : state.Regular)
    (hscoped : value.Scoped state.cells.size) :
    ∃ passed root, state.cells.RootedAt passed value root := by
  induction value using Value.inductionOnOperands with
  | node value ih =>
    cases value with
    | methodCall receiver name args =>
      have hmem : receiver ∈ (Value.methodCall receiver name args).operands := List.mem_cons_self
      obtain ⟨passed, root, hroot⟩ := ih receiver hmem (hscoped.operand hmem)
      exact ⟨passed, root, hroot.receiver name args⟩
    | ref cell =>
      have hcell : cell < state.cells.size := Value.scoped_ref.1 hscoped
      have hreceivers := hstate.receivers _ (.content hcell)
      obtain ⟨root, hroot⟩ :=
        Cells.rootedAt_of_directReceivers hreceivers (hstate.direct cell hcell)
      exact ⟨1, root, .cell hroot⟩
    | _ => exact ⟨0, _, .root rfl⟩

/-- The root of a value could be reached from it before its cells grew. -/
theorem State.Regular.reaches_root {state : State} {later : Cells} {passed : Nat}
    {value root : Value} (hstate : state.Regular) (hscoped : value.Scoped state.cells.size)
    (hgrows : state.cells.Grows later) (h : later.RootedAt passed (later.resolve value) root) :
    state.cells.Reaches value root := by
  obtain ⟨_, hlater⟩ := h.of_resolve
  obtain ⟨_, former, hformer⟩ := hstate.exists_rootedAt hscoped
  obtain ⟨-, rfl⟩ := hlater.unique (hformer.grows hgrows)
  exact hformer.reaches

namespace Machine

variable {context : Context} {instruction : Instruction} {state next later : State}
variable {body : Body} {options : Options} {executed more : List Instruction}

/-! ### One instruction -/

/-- The instruction calls a method on an object, without delegation, and the receiver that it finds
on the stack below the arguments is a reference to the cell. -/
inductive CallsThrough (context : Context) (state : State) (cell : CellId) :
    Instruction → String → List Value → Prop
  | call {call : Call} {args rest : List Value}
      (notSuper : ¬ Delegates context call context.superclass)
      (notSelf : ¬ Delegates context call context.declaringClass)
      (static : call.isStatic = false) (count : args.length = call.args.length)
      (taken : state.stack = args.reverse ++ .ref cell :: rest) :
      CallsThrough context state cell (.invoke call) call.name args

/-- A value is pushed with at most one new cell. -/
theorem extends_push (state : State) (isReference : Bool) (value : Value) :
    state.cells.Extends (state.push isReference value).cells := by
  rw [State.push]
  split
  · exact (Cells.Extends.refl _).alloc value
  · exact .refl _

theorem extends_leave (state : State) (returns : Option Kind) (value : Value) :
    state.cells.Extends (leave returns value state).cells := by
  cases returns with
  | none => exact .refl _
  | some kind => exact extends_push state kind.isReference value

/-- The result of a call through a reference is the reference, and that is not put into a cell
again. -/
theorem cells_leave_ref (returns : Option Kind) (cell : CellId) (state : State) :
    (leave returns (.ref cell) state).cells = state.cells := by
  cases returns with
  | none => rfl
  | some kind =>
    rw [leave, State.push, Value.isRef, Bool.not_true, Bool.and_false]
    rfl

/-- **An instruction changes no content, or puts one call around the content of one cell**, which is
the cell through which it calls a method. -/
theorem Transition.content_eq_or_called (h : Transition context state instruction next)
    (hstate : state.WellFormed) :
    state.cells.Extends next.cells ∨
      ∃ called name args, CallsThrough context state called instruction name args ∧
        next.cells.content called = .methodCall (state.cells.content called) name args ∧
        ∀ cell, cell ≠ called → next.cells.content cell = state.cells.content cell := by
  cases h with
  | pushNull | new _ | loadCell _ => exact .inl ((Cells.Extends.refl _).alloc _)
  | pushConst _ | getStatic _ _ _ => exact .inl (extends_push state _ _)
  | @getField name kind receiver rest taken =>
    left
    exact extends_push { state with stack := rest } _ _
  | @staticCall call args rest notSuper notSelf static count taken =>
    left
    exact extends_leave { state with stack := rest } _ _
  | @valueCall call args rest receiver notSuper notSelf static count direct taken =>
    left
    exact extends_leave { state with stack := rest } _ _
  | @cellCall call args rest cell notSuper notSelf static count taken =>
    right
    have hheld : .ref cell ∈ state.stack := by
      rw [taken]
      exact List.mem_append_right _ List.mem_cons_self
    have hcell : cell < state.cells.size :=
      Value.scoped_ref.1 (hstate.mentioned _ (.entry hheld))
    refine ⟨cell, call.name, args, .call notSuper notSelf static count taken, ?_, ?_⟩
    · rw [cells_leave_ref]
      exact Cells.content_set_self hcell _
    · intro other hother
      rw [cells_leave_ref]
      exact Cells.content_set_of_ne hother _
  | localName slot name =>
    left
    rw [State.cells_recordName]
    exact .refl _
  | _ => exact .inl (.refl _)

/-! ### Two states of a run -/

/-- **Contents are only wrapped in calls.** Every cell of a state that a run visits is a cell of all
later states, with a content that is the former one with calls around it. From one state to the
next, at most one content changes: a call through a reference puts one call around the content of
the cell. So what denotes the object under construction goes on to do so, nothing else begins to,
and a value from which a parameter can be reached keeps this property. -/
theorem Visits.contents_only_wrapped (h : Visits body options executed state) :
    (∀ instruction next, Visits body options (executed ++ [instruction]) next →
      (∀ cell < state.cells.size, next.cells.content cell = state.cells.content cell) ∨
      ∃ called name args, CallsThrough (.of body options) state called instruction name args ∧
        next.cells.content called = .methodCall (state.cells.content called) name args ∧
        ∀ cell, cell ≠ called → next.cells.content cell = state.cells.content cell) ∧
    ∀ more later, Visits body options (executed ++ more) later →
      (∀ cell < state.cells.size, cell < later.cells.size ∧
        (state.cells.content cell).Wraps (later.cells.content cell)) ∧
      ∀ value, value.Scoped state.cells.size →
        later.cells.denotesThis value = state.cells.denotesThis value ∧
        (state.cells.dependsOnParameter value = true →
          later.cells.dependsOnParameter value = true) := by
  constructor
  · intro instruction next hnext
    exact ((h.transition hnext).content_eq_or_called h.regular.toWellFormed).imp_left (·.kept)
  · intro more later hlater
    have hgrows := execute_grows (h.execute_rest hlater)
    constructor
    · intro cell hcell
      exact ⟨Nat.lt_of_lt_of_le hcell hgrows.size_le, hgrows.wraps cell hcell⟩
    · intro value hscoped
      obtain ⟨passed, root, hroot⟩ := h.regular.exists_rootedAt hscoped
      refine ⟨?_, ?_⟩
      · rw [(hroot.grows hgrows).denotesThis, hroot.denotesThis]
      · rw [Cells.dependsOnParameter_iff, Cells.dependsOnParameter_iff]
        exact fun hreach => hreach.grows hgrows

/-- A constructor that links a new object to a parameter, and then to itself, before it stores the
object. -/
def chainTied : Body where
  declaringClass := "Chain"
  superclass := "java.lang.Object"
  parameters := [.reference "Link"]
  instructions := [
    .loadLocal 0,
    .invoke ⟨.special, "java.lang.Object", "<init>", [], none⟩,
    .loadLocal 0,
    .new "Link",
    .dup,
    .loadLocal 1,
    .invoke ⟨.virtual, "Link", "add", [.reference "Link"], some (.reference "Link")⟩,
    .dup,
    .invoke ⟨.virtual, "Link", "tie", [.reference "Link"], none⟩,
    .putField "link",
    .returnVoid]

/-- The state in which the new object has not been called yet. -/
def chainTiedState : State where
  cells := ⟨#[.parameter 0 (.reference "Link"), .new "Link"]⟩
  parameters := [.reference "Link"]
  locals := #[.this, .ref 0]
  stack := [.ref 1, .ref 1, .this]
  assignments := []
  names := #[none]

theorem contents_only_wrapped_chainTied :
    let added : Value := .methodCall (.new "Link") "add" [.ref 2]
    let linked : State := { chainTiedState with
      cells := ⟨#[.parameter 0 (.reference "Link"), added, .parameter 0 (.reference "Link")]⟩
      stack := [.ref 1, .ref 1, .ref 1, .this] }
    let tied : State := { linked with
      cells := linked.cells.set 1 (.methodCall added "tie" [.ref 1])
      stack := [.ref 1, .this] }
    Visits chainTied {} (chainTied.instructions.take 8) linked ∧
      ((∀ cell < 3, tied.cells.content cell = linked.cells.content cell) ∨
        ∃ called name args, CallsThrough (.of chainTied {}) linked called
            (.invoke ⟨.virtual, "Link", "tie", [.reference "Link"], none⟩) name args ∧
          tied.cells.content called = .methodCall (linked.cells.content called) name args ∧
          ∀ cell, cell ≠ called → tied.cells.content cell = linked.cells.content cell) ∧
      Visits chainTied {} (chainTied.instructions.take 5) chainTiedState ∧
      (∀ cell < 2, cell < 3 ∧
        (chainTiedState.cells.content cell).Wraps (tied.cells.content cell)) ∧
      ∀ value : Value, value.Scoped 2 →
        tied.cells.denotesThis value = chainTiedState.cells.denotesThis value ∧
        (chainTiedState.cells.dependsOnParameter value = true →
          tied.cells.dependsOnParameter value = true) := by
  intro added linked tied
  have hfirst : Visits chainTied {} (chainTied.instructions.take 5) chainTiedState := by
    refine ⟨by decide, List.take_prefix _ _, by decide, ?_⟩
    with_unfolding_all rfl
  have hlinked : Visits chainTied {} (chainTied.instructions.take 8) linked := by
    refine ⟨by decide, List.take_prefix _ _, by decide, ?_⟩
    with_unfolding_all rfl
  have htied : Visits chainTied {} (chainTied.instructions.take 9) tied := by
    refine ⟨by decide, List.take_prefix _ _, by decide, ?_⟩
    with_unfolding_all rfl
  have hcalled := hlinked.contents_only_wrapped.1
    (.invoke ⟨.virtual, "Link", "tie", [.reference "Link"], none⟩) tied htied
  have hlater := hfirst.contents_only_wrapped.2
    ((chainTied.instructions.drop 5).take 4) tied htied
  exact ⟨hlinked, hcalled, hfirst, hlater⟩

end Machine

end FieldFlow
