import FieldFlow.Machine

/-!
# Machines without cells

The instructions of a body over stack entries that share nothing, so that a call changes no entry
but its own result.

## Main Definitions

* `AliasFree.Domain`: what the entries are, and what the instructions make of them
* `AliasFree.State`: the operand stack and the assigned fields
* `AliasFree.step`, `AliasFree.run`: one instruction, and a whole body

## Design Notes

The symbolic machine keeps objects behind cells so that a call on one of two references to an
object is seen through the other. The machine here has no such effect. It is written once for all
kinds of entries: finite trees give an evaluator of expressions, and bits give the part of the
evaluation that decides whether a body is accepted at all.

The checks and their order are those of the symbolic machine. Only the receiver of a store is ever
asked about, and the domain has to say whether an entry denotes the object under construction.
-/

namespace FieldFlow.AliasFree

open Machine (Context)

/-- The meaning of the instructions over some kind of stack entries. -/
structure Domain (α : Type) where
  this : α
  parameter (index : Nat) (kind : Kind) : α
  constant (constant : Constant) : α
  int (value : Int64) : α
  new (className : String) : α
  methodCall (receiver : α) (name : String) (args : List α) : α
  staticCall (owner name : String) (args : List α) : α
  fieldRead (receiver : α) (name : String) : α
  staticField (owner name : String) : α
  binaryOp (operator : Operator) (left right : α) : α
  /-- Whether the entry denotes the object under construction. -/
  denotesThis (entry : α) : Bool

/-- The state of a machine without cells. -/
structure State (α : Type) where
  parameters : List Kind
  /-- The object under construction, then every parameter once per slot. -/
  locals : List α
  /-- The operand stack, its top first. -/
  stack : List α
  /-- The fields assigned so far, in the order of their assignment. -/
  assignments : List (String × α)
  names : Array (Option String)

variable {α : Type}

namespace State

/-- The parameters from `index` on, each once per slot. -/
def parametersFrom (domain : Domain α) (index : Nat) : List Kind → List α
  | [] => []
  | kind :: kinds =>
    List.replicate kind.width (domain.parameter index kind) ++
      parametersFrom domain (index + 1) kinds

/-- The state before the first instruction. -/
def initial (domain : Domain α) (parameters : List Kind) : State α where
  parameters
  locals := domain.this :: parametersFrom domain 0 parameters
  stack := []
  assignments := []
  names := Array.replicate parameters.length none

/-- The height of the operand stack. -/
def depth (state : State α) : Nat :=
  state.stack.length

/-- Pushes an entry. -/
def push (state : State α) (entry : α) : State α :=
  { state with stack := entry :: state.stack }

/-- Takes the top of the stack. -/
def pop (state : State α) : Except AnalysisError (α × State α) :=
  match state.stack with
  | [] => .error (.unsupported .underflow)
  | entry :: stack => .ok (entry, { state with stack })

/-- The top of the stack. -/
def peek (state : State α) : Except AnalysisError α :=
  match state.stack with
  | [] => .error (.unsupported .underflow)
  | entry :: _ => .ok entry

/-- Takes the topmost entries, in the order in which they were pushed. -/
def popMany (state : State α) (count : Nat) : Except AnalysisError (List α × State α) :=
  if state.stack.length < count then
    .error (.unsupported (.missingArguments count state.stack.length))
  else
    .ok ((state.stack.take count).reverse, { state with stack := state.stack.drop count })

/-- The entry of a local slot. -/
def load (state : State α) (slot : Nat) : Except AnalysisError α :=
  match state.locals[slot]? with
  | none => .error (.unsupported (.slotOutside slot state.locals.length))
  | some entry => .ok entry

/-- Records the assignment of a field, which may happen once. -/
def assign (state : State α) (field : String) (entry : α) : Except AnalysisError (State α) :=
  if state.assignments.any (·.1 == field) then .error (.duplicateField field)
  else .ok { state with assignments := state.assignments ++ [(field, entry)] }

/-- Records a debug name. Slots that are not the first slot of a parameter are left aside. -/
def recordName (state : State α) (slot : Nat) (name : String) : State α :=
  match if slot = 0 then none else FieldFlow.State.parameterFrom slot 0 1 state.parameters with
  | none => state
  | some index => { state with names := state.names.setIfInBounds index (some name) }

/-- The names of the parameters, if there are parameters and each has a name. -/
def parameterNames (state : State α) : Option (List String) :=
  if state.names.isEmpty then none else state.names.toList.mapM id

end State

variable (domain : Domain α)

/-- A call of a method that is not a delegation to another constructor. -/
def callMethod (call : Call) (state : State α) : Except AnalysisError (State α) := do
  let (args, state) ← state.popMany call.args.length
  let (result, state) ←
    if call.isStatic then
      pure (domain.staticCall call.owner call.name args, state)
    else do
      let (receiver, state) ← state.pop
      pure (domain.methodCall receiver call.name args, state)
  match call.returns with
  | some _ => pure (state.push result)
  | none => pure state

/-- A call. Delegation to the superclass takes no arguments, and delegation within the class is
not allowed. -/
def invoke (context : Context) (call : Call) (state : State α) :
    Except AnalysisError (State α) :=
  if call.name = context.initializer ∧ call.owner = context.superclass then
    if call.args.isEmpty then do
      let (_, state) ← state.pop
      pure state
    else .error .superArguments
  else if call.name = context.initializer ∧ call.owner = context.declaringClass then
    .error .selfDelegation
  else callMethod domain call state

/-- One instruction. -/
def step (context : Context) (instruction : Instruction) (state : State α) :
    Except AnalysisError (State α) :=
  match instruction with
  | .pushNull => .ok (state.push (domain.constant .null))
  | .pushInt value => .ok (state.push (domain.int value))
  | .pushConst constant => .ok (state.push (domain.constant constant))
  | .pop => do
    let (_, state) ← state.pop
    pure state
  | .pop2 => do
    let (_, state) ← state.pop
    let (_, state) ← state.pop
    pure state
  | .dup => do
    let top ← state.peek
    pure (state.push top)
  | .binaryOp operator => do
    let (right, state) ← state.pop
    let (left, state) ← state.pop
    pure (state.push (domain.binaryOp operator left right))
  | .loadLocal slot => do
    let entry ← state.load slot.toNat
    pure (state.push entry)
  | .getStatic owner name _ => .ok (state.push (domain.staticField owner name))
  | .getField name _ => do
    let (receiver, state) ← state.pop
    pure (state.push (domain.fieldRead receiver name))
  | .putField name => do
    let (entry, state) ← state.pop
    let (receiver, state) ← state.pop
    if domain.denotesThis receiver then state.assign name entry else pure state
  | .invoke call => invoke domain context call state
  | .new className => .ok (state.push (domain.new className))
  | .localName slot name => .ok (state.recordName slot.toNat name)
  | .returnVoid =>
    if state.depth = 0 then .ok state else .error (.unsupported (.leftover state.depth))
  | .other mnemonic => .error (.unsupported (.foreign mnemonic))

/-- The state after a list of instructions. -/
def execute (context : Context) : List Instruction → State α → Except AnalysisError (State α)
  | [], state => .ok state
  | instruction :: rest, state => do
    let next ← step domain context instruction state
    execute context rest next

/-- Executes the instructions from `offset` on. The return has to be the last of them. -/
def runFrom (context : Context) (offset : Nat) :
    List Instruction → State α → Except AnalysisError (State α)
  | [], _ => .error (.unsupported .noReturn)
  | instruction :: rest, state => do
    let next ← step domain context instruction state
    if instruction = .returnVoid then
      if rest.isEmpty then .ok next else .error (.unsupported (.afterReturn offset))
    else runFrom context (offset + 1) rest next

/-- Executes a body up to its return and yields the final state. -/
def run (body : Body) (options : Options) : Except AnalysisError (State α) :=
  if options.maxInstructions < body.instructions.length then
    .error (.unsupported (.tooLong body.instructions.length options.maxInstructions))
  else
    runFrom domain (.of body options) 0 body.instructions (.initial domain body.parameters)

end FieldFlow.AliasFree
