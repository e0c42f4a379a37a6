import FieldFlow.Body.Basic
import FieldFlow.State

/-!
# The symbolic machine

Execution of a constructor body on symbolic values.

## Main Definitions

* `Options`: the initializer name and the limit on the length of bodies
* `Machine.step`: one instruction
* `Machine.run`: a whole body, up to its return
* `Machine.trace`: the states that a run goes through

## Design Notes

A method call through a reference changes the content of the cell to the call, so that the object
is from then on known as what the call made of it. Stores into objects other than the one under
construction have no effect on the result; the step reports them.
-/

namespace FieldFlow

/-- What an analysis can be told. -/
structure Options where
  /-- The method name of calls that delegate to another constructor. -/
  initializer : String := initializerName
  /-- Longer bodies are rejected without being run. -/
  maxInstructions : Nat := 4096
  deriving DecidableEq, Repr

namespace Machine

/-- What the instructions of a body are executed for. -/
structure Context where
  declaringClass : String
  superclass : String
  initializer : String

/-- The context of a body. -/
def Context.of (body : Body) (options : Options) : Context :=
  ⟨body.declaringClass, body.superclass, options.initializer⟩

/-- What happened in a step besides the change of state. -/
inductive Outcome where
  | continued
  /-- A store into another object, which was left aside. -/
  | ignoredStore (field : String) (receiver : Value)
  | returned

/-- A call of a method that is not a delegation to another constructor: arguments and receiver are
taken from the stack, and the result is pushed unless the method is void. -/
def callMethod (call : Call) (state : State) : Except AnalysisError State := do
  let (args, state) ← state.popMany call.args.length
  let (result, state) ←
    if call.isStatic then
      pure (.staticCall call.owner call.name args, state)
    else do
      let (receiver, state) ← state.pop
      match receiver with
      | .ref cell =>
        let content := state.cells.content cell
        pure (.ref cell, state.rebind cell (.methodCall content call.name args))
      | receiver => pure (.methodCall receiver call.name args, state)
  match call.returns with
  | some kind => pure (state.push kind.isReference result)
  | none => pure state

/-- A call. Delegation to the superclass takes no arguments, and delegation within the class is
not allowed. -/
def invoke (context : Context) (call : Call) (state : State) : Except AnalysisError State :=
  if call.name = context.initializer ∧ call.owner = context.superclass then
    if call.args.isEmpty then do
      let (_, state) ← state.pop
      pure state
    else .error .superArguments
  else if call.name = context.initializer ∧ call.owner = context.declaringClass then
    .error .selfDelegation
  else callMethod call state

/-- One instruction. -/
def step (context : Context) (instruction : Instruction) (state : State) :
    Except AnalysisError (State × Outcome) :=
  match instruction with
  | .pushNull =>
    let (cell, state) := state.alloc .null
    .ok (state.pushLiteral (.ref cell), .continued)
  | .pushInt value => .ok (state.pushLiteral (.int value), .continued)
  | .pushConst constant =>
    .ok (state.push constant.isReference (.constant constant), .continued)
  | .pop => do
    let (_, state) ← state.pop
    pure (state, .continued)
  | .pop2 => do
    let (_, state) ← state.pop
    let (_, state) ← state.pop
    pure (state, .continued)
  | .dup => do
    let top ← state.peek
    pure (state.pushLiteral top, .continued)
  | .binaryOp operator => do
    let (right, state) ← state.pop
    let (left, state) ← state.pop
    pure (state.pushLiteral (.binaryOp operator left right), .continued)
  | .loadLocal slot => do
    let (value, state) ← state.load slot.toNat
    pure (state.pushLiteral value, .continued)
  | .getStatic owner name kind =>
    .ok (state.push kind.isReference (.staticField owner name), .continued)
  | .getField name kind => do
    let (receiver, state) ← state.pop
    let receiver := state.cells.resolve receiver
    pure (state.push kind.isReference (.fieldRead receiver name), .continued)
  | .putField name => do
    let (value, state) ← state.pop
    let (receiver, state) ← state.pop
    if state.cells.denotesThis receiver then do
      let state ← state.assign name value
      pure (state, .continued)
    else pure (state, .ignoredStore name receiver)
  | .invoke call => do
    let state ← invoke context call state
    pure (state, .continued)
  | .new className =>
    let (cell, state) := state.alloc (.new className)
    .ok (state.pushLiteral (.ref cell), .continued)
  | .localName slot name => .ok (state.recordName slot.toNat name, .continued)
  | .returnVoid =>
    if state.depth = 0 then .ok (state, .returned)
    else .error (.unsupported (.leftover state.depth))
  | .other mnemonic => .error (.unsupported (.foreign mnemonic))

/-! ### Runs -/

/-- Executes the instructions from `offset` on. The return has to be the last of them. -/
def runFrom (context : Context) (offset : Nat) :
    List Instruction → State → Except AnalysisError State
  | [], _ => .error (.unsupported .noReturn)
  | instruction :: rest, state =>
    match step context instruction state with
    | .error error => .error error
    | .ok (state, .returned) =>
      if rest.isEmpty then .ok state else .error (.unsupported (.afterReturn offset))
    | .ok (state, _) => runFrom context (offset + 1) rest state

/-- Executes a body up to its return and yields the final state. -/
def run (body : Body) (options : Options) : Except AnalysisError State :=
  if options.maxInstructions < body.instructions.length then
    .error (.unsupported (.tooLong body.instructions.length options.maxInstructions))
  else
    runFrom (.of body options) 0 body.instructions (.initial body.parameters)

/-! ### Traces -/

/-- One entry of a trace. -/
inductive Moment where
  | reached (state : State) (outcome : Outcome)
  | returned
  | failed (error : AnalysisError)

/-- The entries for the instructions from `offset` on. -/
def traceFrom (context : Context) (offset : Nat) : List Instruction → State → List Moment
  | [], _ => []
  | instruction :: rest, state =>
    match step context instruction state with
    | .error error => [.failed error]
    | .ok (_, .returned) =>
      .returned :: if rest.isEmpty then [] else [.failed (.unsupported (.afterReturn offset))]
    | .ok (state, outcome) =>
      .reached state outcome :: traceFrom context (offset + 1) rest state

/-- The state before the first instruction and the entry after each, up to the return or the
first error. A body over the limit has no entries. -/
def trace (body : Body) (options : Options) : List Moment :=
  if options.maxInstructions < body.instructions.length then []
  else
    let state := State.initial body.parameters
    .reached state .continued ::
      traceFrom (.of body options) 0 body.instructions state

end Machine

end FieldFlow
