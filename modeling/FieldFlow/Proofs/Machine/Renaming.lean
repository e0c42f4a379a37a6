import FieldFlow.Proofs.Machine.Run
import FieldFlow.Proofs.Value.Renaming

/-!
# Runs with renamed cells

The machine treats all cells alike. It goes through the same instructions with the same failures if
the cells of its state have other numbers, and if there are further cells that nothing refers to.

## Main Definitions

* `State.Renames`: a state with other numbers for its cells, among further cells

## Main Statements

* `Machine.step_agree`: every instruction leads from renamed states to renamed states
* `Machine.runFrom_agree`: so does a run, and its failures are the same
* `State.Renames.ofState_eq`, `State.Renames.parameterNames_eq`: renamed states have the same
  mapping and the same debug names

## Design Notes

An operation of the machine is compared with itself, so there is one lemma for each operation, and
the instructions are put together from them.
-/

namespace FieldFlow

variable {ρ : CellId → CellId} {state other : State} {value : Value} {cell : CellId}

/-! ### States -/

namespace State

/-- The other state has the same values with other numbers for their cells. -/
structure Renames (ρ : CellId → CellId) (state other : State) : Prop where
  cells : state.cells.Renames ρ other.cells
  parameters : other.parameters = state.parameters
  locals : other.locals = state.locals.map (Value.rename ρ)
  stack : other.stack = state.stack.map (Value.rename ρ)
  assignments : other.assignments = state.assignments.map (renameAssigned ρ)
  names : other.names = state.names

/-- What is returned along with a state is renamed with it. -/
structure Returns (ρ : CellId → CellId) (result other : Value × State) : Prop where
  value : other.1 = result.1.rename ρ
  state : result.2.Renames ρ other.2

namespace Renames

theorem depth (h : state.Renames ρ other) : other.depth = state.depth := by
  rw [State.depth, State.depth, h.stack, List.length_map]

theorem restack (h : state.Renames ρ other) (stack : List Value) :
    Renames ρ { state with stack } { other with stack := stack.map (Value.rename ρ) } :=
  { h with stack := rfl }

theorem pushLiteral (h : state.Renames ρ other) (value : Value) :
    (state.pushLiteral value).Renames ρ (other.pushLiteral (value.rename ρ)) := by
  rw [State.pushLiteral, State.pushLiteral, h.stack]
  exact h.restack (value :: state.stack)

theorem alloc (h : state.Renames ρ other) (value : Value) :
    (state.alloc value).2.Renames ρ (other.alloc (value.rename ρ)).2 :=
  { h with cells := h.cells.alloc value }

/-- The reference to a new cell is renamed to that to the new cell on the other side. -/
theorem pushNew (h : state.Renames ρ other) (value : Value) :
    ((state.alloc value).2.pushLiteral (.ref state.cells.size)).Renames ρ
      ((other.alloc (value.rename ρ)).2.pushLiteral (.ref other.cells.size)) := by
  have hpushed := (h.alloc value).pushLiteral (.ref state.cells.size)
  rwa [Value.rename, h.cells.size_eq] at hpushed

theorem push (h : state.Renames ρ other) (isReference : Bool) (value : Value) :
    (state.push isReference value).Renames ρ (other.push isReference (value.rename ρ)) := by
  rw [State.push, State.push, Value.isRef_rename]
  split
  · exact h.pushNew value
  · exact h.pushLiteral value

theorem rebind (h : state.Renames ρ other) (cell : CellId) (value : Value) :
    (state.rebind cell value).Renames ρ (other.rebind (ρ cell) (value.rename ρ)) :=
  { h with cells := h.cells.set cell value }

theorem recordName (h : state.Renames ρ other) (slot : Nat) (name : String) :
    (state.recordName slot name).Renames ρ (other.recordName slot name) := by
  have hparameter : other.parameterAt? slot = state.parameterAt? slot := by
    rw [parameterAt?, parameterAt?, h.parameters]
  rw [State.recordName, State.recordName, hparameter]
  split
  · exact h
  · exact { h with names := by rw [h.names] }

theorem pop_agree (h : state.Renames ρ other) : Agree (Returns ρ) state.pop other.pop := by
  rw [State.pop, State.pop, h.stack]
  cases state.stack with
  | nil => exact .error _
  | cons top rest => exact .ok ⟨rfl, h.restack rest⟩

theorem peek_agree (h : state.Renames ρ other) :
    Agree (fun top renamed => renamed = top.rename ρ) state.peek other.peek := by
  rw [State.peek, State.peek, h.stack]
  cases state.stack with
  | nil => exact .error _
  | cons top rest => exact .ok rfl

theorem popMany_agree (h : state.Renames ρ other) (count : Nat) :
    Agree (fun taken renamed => renamed.1 = taken.1.map (Value.rename ρ) ∧
      taken.2.Renames ρ renamed.2) (state.popMany count) (other.popMany count) := by
  rw [State.popMany, State.popMany, h.stack, List.length_map]
  split
  · exact .error _
  · rw [← List.map_take, ← List.map_drop, ← List.map_reverse]
    exact .ok ⟨rfl, h.restack _⟩

theorem load_agree (h : state.Renames ρ other) (slot : Nat) :
    Agree (Returns ρ) (state.load slot) (other.load slot) := by
  have hslot : other.locals[slot]? = state.locals[slot]?.map (Value.rename ρ) := by
    rw [h.locals, Array.getElem?_map]
  cases hheld : state.locals[slot]? with
  | none =>
    rw [hheld] at hslot
    rw [State.load, State.load, hheld, hslot, h.locals, Array.size_map]
    exact .error _
  | some held =>
    rw [hheld, Option.map_some] at hslot
    cases hdirect : held.isRef with
    | true =>
      cases held with
      | ref cell =>
        rw [Value.rename_ref] at hslot
        rw [Machine.load_eq_ok_iff.2 (.inl ⟨cell, hheld, rfl, rfl⟩),
          Machine.load_eq_ok_iff.2 (.inl ⟨ρ cell, hslot, rfl, rfl⟩)]
        have halloc := h.alloc (.ref cell)
        have hcopy := Value.rename_ref (ρ := ρ) state.cells.size
        rw [Value.rename_ref] at halloc
        rw [h.cells.size_eq] at hcopy
        exact .ok ⟨hcopy.symm, halloc⟩
      | _ => cases hdirect
    | false =>
      have hrenamed : (held.rename ρ).isRef = false := by rw [Value.isRef_rename, hdirect]
      rw [Machine.load_eq_ok_iff.2 (.inr ⟨hheld, hdirect, rfl⟩),
        Machine.load_eq_ok_iff.2 (.inr ⟨hslot, hrenamed, rfl⟩)]
      exact .ok ⟨rfl, h⟩

theorem assign_agree (h : state.Renames ρ other) (field : String) (value : Value) :
    Agree (Renames ρ) (state.assign field value) (other.assign field (value.rename ρ)) := by
  have hany : other.assignments.any (·.1 == field) = state.assignments.any (·.1 == field) := by
    rw [h.assignments, List.any_map]
    rfl
  rw [State.assign, State.assign, hany]
  split
  · exact .error _
  · refine .ok { h with assignments := ?_ }
    rw [h.assignments, List.map_append]
    rfl

/-- **Renamed states have the same mapping**, or are rejected with the same error. -/
theorem ofState_eq (h : state.Renames ρ other) : Mapping.ofState other = Mapping.ofState state := by
  rw [Mapping.ofState, Mapping.ofState, h.assignments, Mapping.ofAssignments_rename h.cells]

theorem parameterNames_eq (h : state.Renames ρ other) :
    other.parameterNames = state.parameterNames := by
  rw [State.parameterNames, State.parameterNames, h.names]

end Renames

end State

namespace Machine

variable {args : List Value}

/-! ### Calls -/

/-- The result of a call is renamed, whether or not it is pushed. -/
theorem leave_agree (h : state.Renames ρ other) (returns : Option Kind) (value : Value) :
    Agree (State.Renames ρ)
      (match returns with
        | some kind => pure (state.push kind.isReference value)
        | none => pure state : Except AnalysisError State)
      (match returns with
        | some kind => pure (other.push kind.isReference (value.rename ρ))
        | none => pure other) := by
  cases returns with
  | none => exact .ok h
  | some kind => exact .ok (h.push kind.isReference value)

theorem callMethod_agree (h : state.Renames ρ other) (call : Call) :
    Agree (State.Renames ρ) (callMethod call state) (callMethod call other) := by
  refine (h.popMany_agree call.args.length).bind ?_
  rintro ⟨args, state⟩ ⟨_, other⟩ ⟨rfl, h⟩
  dsimp only at h ⊢
  cases call.isStatic with
  | true =>
    have hleft := leave_agree h call.returns (.staticCall call.owner call.name args)
    rw [Value.rename] at hleft
    exact hleft
  | false =>
    refine h.pop_agree.bind ?_
    rintro ⟨receiver, state⟩ ⟨_, other⟩ ⟨rfl, h⟩
    dsimp only at h ⊢
    have hvalue := leave_agree h call.returns (.methodCall receiver call.name args)
    cases receiver with
    | ref cell =>
      have hrebound := h.rebind cell (.methodCall (state.cells.content cell) call.name args)
      rw [Value.rename, ← h.cells.content] at hrebound
      have hcell := leave_agree hrebound call.returns (.ref cell)
      rw [Value.rename_ref] at hcell ⊢
      exact hcell
    | _ =>
      simp only [Value.rename] at hvalue ⊢
      exact hvalue

theorem invoke_agree (h : state.Renames ρ other) (context : Context) (call : Call) :
    Agree (State.Renames ρ) (invoke context call state) (invoke context call other) := by
  rw [invoke, invoke]
  split
  · split
    · exact h.pop_agree.bind fun _ _ hpopped => .ok hpopped.state
    · exact .error _
  · split
    · exact .error _
    · exact callMethod_agree h call

/-! ### Instructions -/

/-- **Every instruction leads from renamed states to renamed states**, or fails alike. -/
theorem step_agree (h : state.Renames ρ other) (context : Context) (instruction : Instruction) :
    Agree (fun result renamed => result.1.Renames ρ renamed.1) (step context instruction state)
      (step context instruction other) := by
  cases instruction with
  | pushNull =>
    have hpushed := h.pushNew .null
    rw [Value.null, Value.rename] at hpushed
    exact .ok hpushed
  | pushInt value =>
    have hpushed := h.pushLiteral (.int value)
    rw [Value.rename] at hpushed
    exact .ok hpushed
  | pushConst constant =>
    have hpushed := h.push constant.isReference (.constant constant)
    rw [Value.rename] at hpushed
    exact .ok hpushed
  | pop => exact h.pop_agree.bind fun _ _ hpopped => .ok hpopped.state
  | pop2 =>
    refine h.pop_agree.bind fun _ _ hpopped => ?_
    exact hpopped.state.pop_agree.bind fun _ _ hpopped => .ok hpopped.state
  | dup =>
    refine h.peek_agree.bind ?_
    rintro top _ rfl
    exact .ok (h.pushLiteral top)
  | binaryOp operator =>
    refine h.pop_agree.bind ?_
    rintro ⟨right, state⟩ ⟨_, other⟩ ⟨rfl, h⟩
    refine h.pop_agree.bind ?_
    rintro ⟨left, state⟩ ⟨_, other⟩ ⟨rfl, h⟩
    have hpushed := h.pushLiteral (.binaryOp operator left right)
    rw [Value.rename] at hpushed
    exact .ok hpushed
  | loadLocal slot =>
    refine (h.load_agree slot.toNat).bind ?_
    rintro ⟨value, state⟩ ⟨_, other⟩ ⟨rfl, h⟩
    exact .ok (h.pushLiteral value)
  | getStatic owner name kind =>
    have hpushed := h.push kind.isReference (.staticField owner name)
    rw [Value.rename] at hpushed
    exact .ok hpushed
  | getField name kind =>
    refine h.pop_agree.bind ?_
    rintro ⟨receiver, state⟩ ⟨_, other⟩ ⟨rfl, h⟩
    have hpushed := h.push kind.isReference (.fieldRead (state.cells.resolve receiver) name)
    rw [Value.rename, ← h.cells.resolve_eq] at hpushed
    exact .ok hpushed
  | putField field =>
    refine h.pop_agree.bind ?_
    rintro ⟨value, state⟩ ⟨_, other⟩ ⟨rfl, h⟩
    refine h.pop_agree.bind ?_
    rintro ⟨receiver, state⟩ ⟨_, other⟩ ⟨rfl, h⟩
    dsimp only at h ⊢
    rw [h.cells.denotesThis_eq]
    split
    · exact (h.assign_agree field value).bind fun _ _ hassigned => .ok hassigned
    · exact .ok h
  | invoke call => exact (invoke_agree h context call).bind fun _ _ hcalled => .ok hcalled
  | new className =>
    have hpushed := h.pushNew (.new className)
    rw [Value.rename] at hpushed
    exact .ok hpushed
  | localName slot name => exact .ok (h.recordName slot.toNat name)
  | returnVoid =>
    rw [step, step, h.depth]
    split
    · exact .ok h
    · exact .error _
  | other mnemonic => exact .error _

theorem advance_agree (h : state.Renames ρ other) (context : Context) (instruction : Instruction) :
    Agree (State.Renames ρ) (advance context instruction state)
      (advance context instruction other) :=
  (step_agree h context instruction).bind fun _ _ hnext => .ok hnext

/-- **Runs from renamed states agree.** -/
theorem runFrom_agree (h : state.Renames ρ other) (context : Context) (offset : Nat)
    (instructions : List Instruction) :
    Agree (State.Renames ρ) (runFrom context offset instructions state)
      (runFrom context offset instructions other) := by
  induction instructions generalizing offset state other with
  | nil => exact .error _
  | cons instruction rest ih =>
    rw [runFrom_cons, runFrom_cons]
    refine (advance_agree h context instruction).bind fun next renamed hnext => ?_
    split
    · split
      · exact .ok hnext
      · exact .error _
    · exact ih hnext (offset + 1)

end Machine

end FieldFlow
