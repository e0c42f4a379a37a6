import FieldFlow.Machine
import FieldFlow.Proofs.Agree

/-!
# Transitions of the machine

Everything that an instruction can do to a state, as one rule for each way in which it succeeds.

## Main Definitions

* `Machine.advance`: one instruction, without what else happens in it
* `Machine.Transition`: the rules

## Main Statements

* `Machine.advance_eq_ok_iff`: the rules are the successful steps

## Design Notes

A rule names the entries that an instruction takes from the stack, and what it leaves there. Facts
about all steps are proved by cases on the rules, without opening the steps again.
-/

namespace FieldFlow.Machine

/-- The state after one instruction, without what else happened. -/
def advance (context : Context) (instruction : Instruction) (state : State) :
    Except AnalysisError State :=
  (step context instruction state).map (·.1)

/-- The state in which a call leaves its result, if the method is not void. -/
def leave (returns : Option Kind) (result : Value) (state : State) : State :=
  match returns with
  | some kind => state.push kind.isReference result
  | none => state

/-- The call delegates to a constructor of the given class. -/
def Delegates (context : Context) (call : Call) (owner : String) : Prop :=
  call.name = context.initializer ∧ call.owner = owner

/-- The state after an instruction. -/
inductive Transition (context : Context) (state : State) : Instruction → State → Prop
  | pushNull :
      Transition context state .pushNull
        ((state.alloc .null).2.pushLiteral (.ref state.cells.size))
  | pushInt (value : Int64) :
      Transition context state (.pushInt value) (state.pushLiteral (.int value))
  | pushConst (constant : Constant) :
      Transition context state (.pushConst constant)
        (state.push constant.isReference (.constant constant))
  | pop {top : Value} {rest : List Value} (taken : state.stack = top :: rest) :
      Transition context state .pop { state with stack := rest }
  | pop2 {top second : Value} {rest : List Value} (taken : state.stack = top :: second :: rest) :
      Transition context state .pop2 { state with stack := rest }
  | dup {top : Value} {rest : List Value} (taken : state.stack = top :: rest) :
      Transition context state .dup (state.pushLiteral top)
  | binaryOp (operator : Operator) {left right : Value} {rest : List Value}
      (taken : state.stack = right :: left :: rest) :
      Transition context state (.binaryOp operator)
        ({ state with stack := rest }.pushLiteral (.binaryOp operator left right))
  | loadCell {slot : UInt16} {cell : CellId}
      (held : state.locals[slot.toNat]? = some (.ref cell)) :
      Transition context state (.loadLocal slot)
        ((state.alloc (.ref cell)).2.pushLiteral (.ref state.cells.size))
  | loadValue {slot : UInt16} {value : Value} (held : state.locals[slot.toNat]? = some value)
      (direct : value.isRef = false) :
      Transition context state (.loadLocal slot) (state.pushLiteral value)
  | getStatic (owner name : String) (kind : Kind) :
      Transition context state (.getStatic owner name kind)
        (state.push kind.isReference (.staticField owner name))
  | getField (name : String) (kind : Kind) {receiver : Value} {rest : List Value}
      (taken : state.stack = receiver :: rest) :
      Transition context state (.getField name kind)
        ({ state with stack := rest }.push kind.isReference
          (.fieldRead (state.cells.resolve receiver) name))
  | store {field : String} {value receiver : Value} {rest : List Value}
      (taken : state.stack = value :: receiver :: rest)
      (own : state.cells.denotesThis receiver = true)
      (fresh : field ∉ state.assignments.map (·.1)) :
      Transition context state (.putField field)
        { state with stack := rest, assignments := state.assignments ++ [(field, value)] }
  | ignore {field : String} {value receiver : Value} {rest : List Value}
      (taken : state.stack = value :: receiver :: rest)
      (foreign : state.cells.denotesThis receiver = false) :
      Transition context state (.putField field) { state with stack := rest }
  | superCall {call : Call} {receiver : Value} {rest : List Value}
      (delegates : Delegates context call context.superclass) (noArgs : call.args = [])
      (taken : state.stack = receiver :: rest) :
      Transition context state (.invoke call) { state with stack := rest }
  | staticCall {call : Call} {args rest : List Value}
      (notSuper : ¬ Delegates context call context.superclass)
      (notSelf : ¬ Delegates context call context.declaringClass)
      (static : call.isStatic = true) (count : args.length = call.args.length)
      (taken : state.stack = args.reverse ++ rest) :
      Transition context state (.invoke call)
        (leave call.returns (.staticCall call.owner call.name args) { state with stack := rest })
  | cellCall {call : Call} {args rest : List Value} {cell : CellId}
      (notSuper : ¬ Delegates context call context.superclass)
      (notSelf : ¬ Delegates context call context.declaringClass)
      (static : call.isStatic = false) (count : args.length = call.args.length)
      (taken : state.stack = args.reverse ++ .ref cell :: rest) :
      Transition context state (.invoke call)
        (leave call.returns (.ref cell) ({ state with stack := rest }.rebind cell
          (.methodCall (state.cells.content cell) call.name args)))
  | valueCall {call : Call} {args rest : List Value} {receiver : Value}
      (notSuper : ¬ Delegates context call context.superclass)
      (notSelf : ¬ Delegates context call context.declaringClass)
      (static : call.isStatic = false) (count : args.length = call.args.length)
      (direct : receiver.isRef = false)
      (taken : state.stack = args.reverse ++ receiver :: rest) :
      Transition context state (.invoke call)
        (leave call.returns (.methodCall receiver call.name args) { state with stack := rest })
  | new (className : String) :
      Transition context state (.new className)
        ((state.alloc (.new className)).2.pushLiteral (.ref state.cells.size))
  | localName (slot : UInt16) (name : String) :
      Transition context state (.localName slot name) (state.recordName slot.toNat name)
  | returnVoid (done : state.stack = []) : Transition context state .returnVoid state

/-! ### The operations of a state -/

section Operations

variable {state next : State} {value : Value} {args : List Value} {field : String}

theorem pop_eq_ok_iff : state.pop = .ok (value, next) ↔
    ∃ rest, state.stack = value :: rest ∧ next = { state with stack := rest } := by
  rw [State.pop]
  cases state.stack with
  | nil => simp
  | cons top rest =>
    simp only [Except.ok.injEq, Prod.mk.injEq, List.cons.injEq]
    constructor
    · rintro ⟨rfl, rfl⟩
      exact ⟨rest, ⟨rfl, rfl⟩, rfl⟩
    · rintro ⟨_, ⟨rfl, rfl⟩, rfl⟩
      exact ⟨rfl, rfl⟩

theorem peek_eq_ok_iff : state.peek = .ok value ↔ ∃ rest, state.stack = value :: rest := by
  rw [State.peek]
  cases state.stack with
  | nil => simp
  | cons top rest => simp

/-- Taking several values succeeds if the stack has their number on top. -/
theorem popMany_eq_ok_iff {count : Nat} : state.popMany count = .ok (args, next) ↔
    ∃ rest, args.length = count ∧ state.stack = args.reverse ++ rest ∧
      next = { state with stack := rest } := by
  rw [State.popMany]
  split
  next hlt =>
    refine ⟨nofun, fun ⟨rest, hcount, hstack, _⟩ => ?_⟩
    rw [hstack, List.length_append, List.length_reverse] at hlt
    omega
  next hle =>
    simp only [Except.ok.injEq, Prod.mk.injEq]
    constructor
    · rintro ⟨rfl, rfl⟩
      refine ⟨_, ?_, ?_, rfl⟩
      · rw [List.length_reverse, List.length_take]
        omega
      · rw [List.reverse_reverse, List.take_append_drop]
    · rintro ⟨rest, rfl, hstack, rfl⟩
      rw [hstack]
      simp

theorem load_eq_ok_iff {slot : Nat} : state.load slot = .ok (value, next) ↔
    (∃ cell, state.locals[slot]? = some (.ref cell) ∧ value = .ref state.cells.size ∧
      next = (state.alloc (.ref cell)).2) ∨
    state.locals[slot]? = some value ∧ value.isRef = false ∧ next = state := by
  rw [State.load]
  split
  next hheld => simp [hheld]
  next cell hheld =>
    simp only [hheld, Except.ok.injEq, Prod.mk.injEq, Option.some.injEq]
    constructor
    · rintro ⟨rfl, rfl⟩
      exact .inl ⟨cell, rfl, rfl, rfl⟩
    · rintro (⟨_, hcell, rfl, rfl⟩ | ⟨rfl, hdirect, -⟩)
      · cases hcell
        exact ⟨rfl, rfl⟩
      · simp [Value.isRef] at hdirect
  next held hdirect hheld =>
    simp only [hheld, Except.ok.injEq, Prod.mk.injEq, Option.some.injEq]
    constructor
    · rintro ⟨rfl, rfl⟩
      refine .inr ⟨rfl, ?_, rfl⟩
      cases held <;> first | rfl | exact absurd rfl (hdirect _)
    · rintro (⟨cell, rfl, -⟩ | ⟨rfl, -, rfl⟩)
      · exact absurd rfl (hdirect cell)
      · exact ⟨rfl, rfl⟩

theorem assign_eq_ok_iff : state.assign field value = .ok next ↔
    field ∉ state.assignments.map (·.1) ∧
      next = { state with assignments := state.assignments ++ [(field, value)] } := by
  rw [State.assign]
  split
  next h =>
    refine ⟨nofun, fun ⟨hfresh, _⟩ => ?_⟩
    obtain ⟨entry, hentry, heq⟩ := List.any_eq_true.1 h
    exact absurd (List.mem_map.2 ⟨entry, hentry, by simpa using heq⟩) hfresh
  next h =>
    have hfresh : field ∉ state.assignments.map (·.1) := by
      intro hmem
      obtain ⟨entry, hentry, heq⟩ := List.mem_map.1 hmem
      exact h (List.any_eq_true.2 ⟨entry, hentry, by simpa using heq⟩)
    simp only [hfresh, not_false_eq_true, true_and, Except.ok.injEq]
    exact eq_comm

end Operations

/-! ### The rules are the successful steps -/

variable {context : Context} {instruction : Instruction} {state next : State} {call : Call}

/-- A call that does not delegate is a call of a method. -/
theorem invoke_eq_callMethod (notSuper : ¬ Delegates context call context.superclass)
    (notSelf : ¬ Delegates context call context.declaringClass) :
    invoke context call state = callMethod call state := by
  unfold invoke
  exact (if_neg notSuper).trans (if_neg notSelf)

/-- Delegation to the superclass takes the receiver. -/
theorem invoke_of_delegates (delegates : Delegates context call context.superclass)
    (noArgs : call.args = []) :
    invoke context call state = state.pop.map (·.2) := by
  unfold invoke
  refine (if_pos delegates).trans ?_
  rw [noArgs]
  cases state.pop <;> rfl

/-- The end of a call, where its result is pushed or left out. -/
theorem eq_leave {returns : Option Kind} {result : Value} {called : State}
    (h : (match returns with
      | some kind => pure (called.push kind.isReference result)
      | none => pure called : Except AnalysisError State) = .ok next) :
    next = leave returns result called := by
  cases returns <;> cases h <;> rfl

theorem transition_of_callMethod (notSuper : ¬ Delegates context call context.superclass)
    (notSelf : ¬ Delegates context call context.declaringClass)
    (h : callMethod call state = .ok next) : Transition context state (.invoke call) next := by
  obtain ⟨⟨args, popped⟩, hargs, h⟩ := bind_eq_ok.1 h
  obtain ⟨rest, hcount, hstack, rfl⟩ := popMany_eq_ok_iff.1 hargs
  dsimp only at h
  split at h
  next hstatic =>
    rw [eq_leave h]
    exact .staticCall notSuper notSelf hstatic hcount hstack
  next hstatic =>
    obtain ⟨⟨receiver, popped⟩, hreceiver, h⟩ := bind_eq_ok.1 h
    obtain ⟨rest, rfl, rfl⟩ := pop_eq_ok_iff.1 hreceiver
    rw [Bool.not_eq_true] at hstatic
    cases receiver with
    | ref cell =>
      rw [eq_leave h]
      exact .cellCall notSuper notSelf hstatic hcount hstack
    | _ =>
      rw [eq_leave h]
      exact .valueCall notSuper notSelf hstatic hcount rfl hstack

theorem transition_of_step {outcome : Outcome}
    (h : step context instruction state = .ok (next, outcome)) :
    Transition context state instruction next := by
  cases instruction with
  | pushNull =>
    cases h
    exact .pushNull
  | pushInt value =>
    cases h
    exact .pushInt value
  | pushConst constant =>
    cases h
    exact .pushConst constant
  | pop =>
    obtain ⟨⟨top, popped⟩, htop, h⟩ := bind_eq_ok.1 h
    obtain ⟨rest, hstack, rfl⟩ := pop_eq_ok_iff.1 htop
    cases h
    exact .pop hstack
  | pop2 =>
    obtain ⟨⟨top, popped⟩, htop, h⟩ := bind_eq_ok.1 h
    obtain ⟨⟨second, popped'⟩, hsecond, h⟩ := bind_eq_ok.1 h
    obtain ⟨rest, hstack, rfl⟩ := pop_eq_ok_iff.1 htop
    obtain ⟨rest, rfl, rfl⟩ := pop_eq_ok_iff.1 hsecond
    cases h
    exact .pop2 hstack
  | dup =>
    obtain ⟨top, htop, h⟩ := bind_eq_ok.1 h
    obtain ⟨rest, hstack⟩ := peek_eq_ok_iff.1 htop
    cases h
    exact .dup hstack
  | binaryOp operator =>
    obtain ⟨⟨right, popped⟩, hright, h⟩ := bind_eq_ok.1 h
    obtain ⟨⟨left, popped'⟩, hleft, h⟩ := bind_eq_ok.1 h
    obtain ⟨rest, hstack, rfl⟩ := pop_eq_ok_iff.1 hright
    obtain ⟨rest, rfl, rfl⟩ := pop_eq_ok_iff.1 hleft
    cases h
    exact .binaryOp operator hstack
  | loadLocal slot =>
    obtain ⟨⟨value, loaded⟩, hload, h⟩ := bind_eq_ok.1 h
    cases h
    rcases load_eq_ok_iff.1 hload with ⟨cell, hheld, rfl, rfl⟩ | ⟨hheld, hdirect, rfl⟩
    · exact .loadCell hheld
    · exact .loadValue hheld hdirect
  | getStatic owner name kind =>
    cases h
    exact .getStatic owner name kind
  | getField name kind =>
    obtain ⟨⟨receiver, popped⟩, hreceiver, h⟩ := bind_eq_ok.1 h
    obtain ⟨rest, hstack, rfl⟩ := pop_eq_ok_iff.1 hreceiver
    cases h
    exact .getField name kind hstack
  | putField field =>
    obtain ⟨⟨value, popped⟩, hvalue, h⟩ := bind_eq_ok.1 h
    obtain ⟨⟨receiver, popped'⟩, hreceiver, h⟩ := bind_eq_ok.1 h
    obtain ⟨rest, hstack, rfl⟩ := pop_eq_ok_iff.1 hvalue
    obtain ⟨rest, rfl, rfl⟩ := pop_eq_ok_iff.1 hreceiver
    dsimp only at h
    split at h
    next hown =>
      obtain ⟨assigned, hassign, h⟩ := bind_eq_ok.1 h
      obtain ⟨hfresh, rfl⟩ := assign_eq_ok_iff.1 hassign
      cases h
      exact .store hstack hown hfresh
    next hforeign =>
      cases h
      exact .ignore hstack (by simpa using hforeign)
  | invoke call =>
    obtain ⟨called, hcall, h⟩ := bind_eq_ok.1 h
    cases h
    rw [invoke] at hcall
    split at hcall
    next hsuper =>
      split at hcall
      next hargs =>
        obtain ⟨⟨receiver, popped⟩, hreceiver, hcall⟩ := bind_eq_ok.1 hcall
        obtain ⟨rest, hstack, rfl⟩ := pop_eq_ok_iff.1 hreceiver
        cases hcall
        exact .superCall hsuper (List.isEmpty_iff.1 hargs) hstack
      next => cases hcall
    next hsuper =>
      split at hcall
      next => cases hcall
      next hself => exact transition_of_callMethod hsuper hself hcall
  | new className =>
    cases h
    exact .new className
  | localName slot name =>
    cases h
    exact .localName slot name
  | returnVoid =>
    rw [step] at h
    split at h
    next hdepth =>
      cases h
      exact .returnVoid (List.length_eq_zero_iff.1 hdepth)
    next => cases h
  | other mnemonic => cases h

theorem advance_of_transition (h : Transition context state instruction next) :
    advance context instruction state = .ok next := by
  cases h with
  | pushNull => rfl
  | pushInt value => rfl
  | pushConst constant => rfl
  | pop taken =>
    rw [advance, step, pop_eq_ok_iff.2 ⟨_, taken, rfl⟩]
    rfl
  | pop2 taken =>
    rw [advance, step, pop_eq_ok_iff.2 ⟨_, taken, rfl⟩]
    rfl
  | dup taken =>
    rw [advance, step, peek_eq_ok_iff.2 ⟨_, taken⟩]
    rfl
  | binaryOp operator taken =>
    rw [advance, step, pop_eq_ok_iff.2 ⟨_, taken, rfl⟩]
    rfl
  | loadCell held =>
    rw [advance, step, load_eq_ok_iff.2 (.inl ⟨_, held, rfl, rfl⟩)]
    rfl
  | loadValue held direct =>
    rw [advance, step, load_eq_ok_iff.2 (.inr ⟨held, direct, rfl⟩)]
    rfl
  | getStatic owner name kind => rfl
  | getField name kind taken =>
    rw [advance, step, pop_eq_ok_iff.2 ⟨_, taken, rfl⟩]
    rfl
  | @store field value receiver rest taken own fresh =>
    rw [advance, step, pop_eq_ok_iff.2 ⟨_, taken, rfl⟩]
    have hassign : State.assign { state with stack := rest } field value =
        .ok { state with stack := rest, assignments := state.assignments ++ [(field, value)] } :=
      assign_eq_ok_iff.2 ⟨fresh, rfl⟩
    simp [bind, Except.bind, State.pop, own, hassign, pure, Except.pure, Except.map]
  | ignore taken foreign =>
    rw [advance, step, pop_eq_ok_iff.2 ⟨_, taken, rfl⟩]
    simp [bind, Except.bind, State.pop, foreign, pure, Except.pure, Except.map]
  | superCall delegates noArgs taken =>
    rw [advance, step, invoke_of_delegates delegates noArgs, pop_eq_ok_iff.2 ⟨_, taken, rfl⟩]
    rfl
  | @staticCall call args rest notSuper notSelf static count taken =>
    rw [advance, step, invoke_eq_callMethod notSuper notSelf, callMethod,
      popMany_eq_ok_iff.2 ⟨_, count, taken, rfl⟩]
    simp only [bind, Except.bind, static, leave]
    cases call.returns <;> rfl
  | @cellCall call args rest cell notSuper notSelf static count taken =>
    rw [advance, step, invoke_eq_callMethod notSuper notSelf, callMethod,
      popMany_eq_ok_iff.2 ⟨_, count, taken, rfl⟩]
    simp only [bind, Except.bind, static, leave, State.pop]
    cases call.returns <;> rfl
  | @valueCall call args rest receiver notSuper notSelf static count direct taken =>
    rw [advance, step, invoke_eq_callMethod notSuper notSelf, callMethod,
      popMany_eq_ok_iff.2 ⟨_, count, taken, rfl⟩]
    simp only [bind, Except.bind, static, leave, State.pop]
    cases receiver <;> first | (cases call.returns <;> rfl) | simp [Value.isRef] at direct
  | new className => rfl
  | localName slot name => rfl
  | returnVoid done =>
    have hdepth : state.depth = 0 := List.length_eq_zero_iff.2 done
    rw [advance, step, if_pos hdepth]
    rfl

/-- **The rules are exactly the successful steps.** -/
theorem advance_eq_ok_iff :
    advance context instruction state = .ok next ↔ Transition context state instruction next := by
  refine ⟨fun h => ?_, advance_of_transition⟩
  rw [advance] at h
  cases hstep : step context instruction state with
  | error error =>
    rw [hstep] at h
    cases h
  | ok result =>
    rw [hstep] at h
    cases h
    exact transition_of_step hstep

end FieldFlow.Machine
