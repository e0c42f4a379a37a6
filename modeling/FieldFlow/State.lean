import FieldFlow.AnalysisError
import FieldFlow.Value.Render

/-!
# Machine states

What the symbolic machine remembers between two instructions, and the operations on it.

## Main Definitions

* `State`: cells, local slots, operand stack, assigned fields and debug names
* `State.initial`: the state before the first instruction
* `State.push`, `State.pop`, `State.popMany`, `State.load`, `State.assign`, …: the operations

## Design Notes

A reference-typed value always sits on the stack behind a cell, so that a method call can change
what it stands for. A local slot is copied into a fresh cell when it is loaded, so no call ever
changes what a later load of the slot yields.
-/

namespace FieldFlow

/-- The state of the symbolic machine. -/
structure State where
  cells : Cells
  parameters : List Kind
  /-- The object under construction, then every parameter once per slot. -/
  locals : Array Value
  /-- The operand stack, its top first. -/
  stack : List Value
  /-- The fields assigned so far, in the order of their assignment. -/
  assignments : List (String × Value)
  /-- The debug name of each parameter, where one was recorded. -/
  names : Array (Option String)

namespace State

/-! ### The initial state -/

/-- Gives slots to the parameters from `index` on. A reference parameter lives in a cell; a wide
parameter has its value in both of its slots. -/
def addParameters (cells : Cells) (locals : Array Value) (index : Nat) :
    List Kind → Cells × Array Value
  | [] => (cells, locals)
  | kind :: kinds =>
    if kind.isReference then
      let (cell, cells) := cells.alloc (.parameter index kind)
      addParameters cells (locals ++ Array.replicate kind.width (.ref cell)) (index + 1) kinds
    else
      addParameters cells (locals ++ Array.replicate kind.width (.parameter index kind))
        (index + 1) kinds

/-- The state before the first instruction. -/
def initial (parameters : List Kind) : State :=
  let (cells, locals) := addParameters .empty #[.this] 0 parameters
  { cells, parameters, locals
    stack := []
    assignments := []
    names := Array.replicate parameters.length none }

/-- The height of the operand stack. -/
def depth (state : State) : Nat :=
  state.stack.length

/-! ### The operand stack -/

/-- Pushes a value as it is. -/
def pushLiteral (state : State) (value : Value) : State :=
  { state with stack := value :: state.stack }

/-- A new cell with the given content. -/
def alloc (state : State) (value : Value) : CellId × State :=
  let (cell, cells) := state.cells.alloc value
  (cell, { state with cells })

/-- Pushes a value behind a cell if it is reference-typed and not behind one already. -/
def push (state : State) (isReference : Bool) (value : Value) : State :=
  if isReference && !value.isRef then
    let (cell, state) := state.alloc value
    state.pushLiteral (.ref cell)
  else state.pushLiteral value

/-- Takes the top of the stack. -/
def pop (state : State) : Except AnalysisError (Value × State) :=
  match state.stack with
  | [] => .error (.unsupported .underflow)
  | value :: stack => .ok (value, { state with stack })

/-- The top of the stack. -/
def peek (state : State) : Except AnalysisError Value :=
  match state.stack with
  | [] => .error (.unsupported .underflow)
  | value :: _ => .ok value

/-- Takes the topmost values, in the order in which they were pushed. -/
def popMany (state : State) (count : Nat) : Except AnalysisError (List Value × State) :=
  if state.stack.length < count then
    .error (.unsupported (.missingArguments count state.stack.length))
  else
    .ok ((state.stack.take count).reverse, { state with stack := state.stack.drop count })

/-! ### Local slots and cells -/

/-- The value of a local slot. A reference comes with a fresh cell of its own. -/
def load (state : State) (slot : Nat) : Except AnalysisError (Value × State) :=
  match state.locals[slot]? with
  | none => .error (.unsupported (.slotOutside slot state.locals.size))
  | some (.ref cell) =>
    let (copy, state) := state.alloc (.ref cell)
    .ok (.ref copy, state)
  | some value => .ok (value, state)

/-- Changes the content of a cell. -/
def rebind (state : State) (cell : CellId) (value : Value) : State :=
  { state with cells := state.cells.set cell value }

/-! ### Assigned fields -/

/-- Records the assignment of a field, which may happen once. -/
def assign (state : State) (field : String) (value : Value) : Except AnalysisError State :=
  if state.assignments.any (·.1 == field) then .error (.duplicateField field)
  else .ok { state with assignments := state.assignments ++ [(field, value)] }

/-! ### Debug names -/

/-- The index of the parameter whose first slot is the given one, where the parameters from
`index` on begin at slot `next`. -/
def parameterFrom (slot index next : Nat) : List Kind → Option Nat
  | [] => none
  | kind :: kinds =>
    if next = slot then some index
    else if slot < next + kind.width then none
    else parameterFrom slot (index + 1) (next + kind.width) kinds

/-- The index of the parameter whose first slot is the given one. -/
def parameterAt? (state : State) (slot : Nat) : Option Nat :=
  if slot = 0 then none else parameterFrom slot 0 1 state.parameters

/-- Records a debug name. Slots that are not the first slot of a parameter are left aside. -/
def recordName (state : State) (slot : Nat) (name : String) : State :=
  match state.parameterAt? slot with
  | none => state
  | some index => { state with names := state.names.setIfInBounds index (some name) }

/-- The names of the parameters, if there are parameters and each has a name. -/
def parameterNames (state : State) : Option (List String) :=
  if state.names.isEmpty then none else state.names.toList.mapM id

end State

end FieldFlow
