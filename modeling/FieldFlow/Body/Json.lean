import FieldFlow.Body.Basic
import FieldFlow.Json.Printer
import FieldFlow.Json.Reader

/-!
# Bodies as JSON

The JSON form of constructor bodies and of their parts.

## Main Definitions

* `Kind.toJson`, `Constant.toJson`, `Instruction.toJson`, `Body.toJson`: writing
* `Kind.ofJson?`, `Constant.ofJson?`, `Instruction.ofJson?`, `Body.ofJson?`: reading
* `Body.toText`, `Body.ofText`: lists of bodies as text

## Design Notes

An alternative that carries nothing is its name. One that carries something is an object with its
name alone. Groups of fields are written as objects, and read from arrays too. A text may hold one
body in place of a list.
-/

namespace FieldFlow

namespace Json

/-- An alternative that carries something. -/
def tagged (name : String) (payload : Json) : Json :=
  object [(name, payload)]

/-- An alternative that carries nothing may carry null. -/
def isUnit : Option Json → Bool
  | none | some null => true
  | _ => false

/-- Reads every item of an array. -/
def list? {α : Type} (item : Json → Option α) (json : Json) : Option (List α) :=
  json.items?.bind fun items => items.mapM item

/-- Null or an item. -/
def optional? {α : Type} (item : Json → Option α) : Json → Option (Option α)
  | null => some none
  | json => (item json).map some

/-- A signed integer of 64 bits. -/
def int64? (json : Json) : Option Int64 :=
  (json.intWithin? Int64.minValue.toInt Int64.maxValue.toInt).map .ofInt

/-- A signed integer of 32 bits. -/
def int32? (json : Json) : Option Int32 :=
  (json.intWithin? Int32.minValue.toInt Int32.maxValue.toInt).map .ofInt

/-- An unsigned integer of 16 bits. -/
def uint16? (json : Json) : Option UInt16 :=
  (json.intWithin? 0 (UInt16.size - 1)).map fun n => .ofNat n.toNat

end Json

/-! ### Kinds -/

namespace Kind

/-- The JSON form of a kind. -/
def toJson : Kind → Json
  | boolean => .string "boolean"
  | byte => .string "byte"
  | char => .string "char"
  | short => .string "short"
  | int => .string "int"
  | long => .string "long"
  | float => .string "float"
  | double => .string "double"
  | reference name => .tagged "reference" (.string name)

/-- The primitive kind of the given name. -/
def primitive? (name : String) : Option Kind :=
  match name with
  | "boolean" => some boolean
  | "byte" => some byte
  | "char" => some char
  | "short" => some short
  | "int" => some int
  | "long" => some long
  | "float" => some float
  | "double" => some double
  | _ => none

/-- Reads a kind. -/
def ofJson? (json : Json) : Option Kind := do
  let (name, payload) ← json.variant?
  match name, payload with
  | "reference", some payload => payload.text?.map reference
  | _, _ => if Json.isUnit payload then primitive? name else none

end Kind

/-! ### Constants -/

namespace Constant

/-- The JSON form of a constant. -/
def toJson : Constant → Json
  | null => .string "null"
  | int value => .tagged "int" (.int value.toInt)
  | long value => .tagged "long" (.int value.toInt)
  | float value => .tagged "float" (.single value)
  | double value => .tagged "double" (.double value)
  | string value => .tagged "string" (.string value)
  | classLiteral name => .tagged "class" (.string name)

/-- Reads a constant. -/
def ofJson? (json : Json) : Option Constant := do
  let (name, payload) ← json.variant?
  match name, payload with
  | "int", some payload => payload.int32?.map int
  | "long", some payload => payload.int64?.map long
  | "float", some payload => payload.single?.map float
  | "double", some payload => payload.double?.map double
  | "string", some payload => payload.text?.map string
  | "class", some payload => payload.text?.map classLiteral
  | "null", payload => if Json.isUnit payload then some null else none
  | _, _ => none

end Constant

/-! ### Operators and calls -/

namespace Operator

/-- The JSON form of an operator. -/
def toJson (operator : Operator) : Json :=
  .string operator.mnemonic

/-- All operators. -/
def all : List Operator := [add, sub, mul, div, rem, shl, shr, ushr, and, or, xor]

/-- Reads an operator. -/
def ofJson? (json : Json) : Option Operator := do
  let (name, payload) ← json.variant?
  if Json.isUnit payload then all.find? (·.mnemonic == name) else none

end Operator

namespace CallKind

/-- The name of a kind of call. -/
def name : CallKind → String
  | virtual => "virtual"
  | special => "special"
  | static => "static"
  | interface => "interface"

/-- The JSON form of a kind of call. -/
def toJson (kind : CallKind) : Json :=
  .string kind.name

/-- All kinds of calls. -/
def all : List CallKind := [virtual, special, static, interface]

/-- Reads a kind of call. -/
def ofJson? (json : Json) : Option CallKind := do
  let (name, payload) ← json.variant?
  if Json.isUnit payload then all.find? (·.name == name) else none

end CallKind

namespace Call

/-- The JSON form of a call. -/
def toJson (call : Call) : Json :=
  .object [
    ("kind", call.kind.toJson),
    ("owner", .string call.owner),
    ("name", .string call.name),
    ("args", .array (call.args.map Kind.toJson)),
    ("returns", (call.returns.map Kind.toJson).getD .null)]

/-- Reads a call. A call without a result may leave the result out. -/
def ofJson? (json : Json) : Option Call := do
  match ← json.record? ["kind", "owner", "name", "args", "returns"] ["returns"] with
  | [kind, owner, name, args, returns] =>
    let kind ← CallKind.ofJson? kind
    let owner ← owner.text?
    let name ← name.text?
    let args ← args.list? Kind.ofJson?
    let returns ← returns.optional? Kind.ofJson?
    pure { kind, owner, name, args, returns }
  | _ => none

end Call

/-! ### Instructions -/

namespace Instruction

/-- The JSON form of an instruction. -/
def toJson : Instruction → Json
  | pushNull => .string "push_null"
  | pushInt value => .tagged "push_int" (.int value.toInt)
  | pushConst constant => .tagged "push_const" constant.toJson
  | pop => .string "pop"
  | pop2 => .string "pop2"
  | dup => .string "dup"
  | binaryOp operator => .tagged "binary_op" operator.toJson
  | loadLocal slot => .tagged "load_local" (.int slot.toNat)
  | getStatic owner name kind =>
    .tagged "get_static"
      (.object [("owner", .string owner), ("name", .string name), ("kind", kind.toJson)])
  | getField name kind =>
    .tagged "get_field" (.object [("name", .string name), ("kind", kind.toJson)])
  | putField name => .tagged "put_field" (.object [("name", .string name)])
  | invoke call => .tagged "invoke" call.toJson
  | new className => .tagged "new" (.string className)
  | localName slot name =>
    .tagged "local_name" (.object [("slot", .int slot.toNat), ("name", .string name)])
  | returnVoid => .string "return_void"
  | other mnemonic => .tagged "other" (.object [("mnemonic", .string mnemonic)])

/-- The instruction without operands of the given name. -/
def plain? (name : String) : Option Instruction :=
  match name with
  | "push_null" => some pushNull
  | "pop" => some pop
  | "pop2" => some pop2
  | "dup" => some dup
  | "return_void" => some returnVoid
  | _ => none

/-- The instruction of the given name with its operands. -/
def withOperands? (name : String) (payload : Json) : Option Instruction :=
  match name with
  | "push_int" => payload.int64?.map pushInt
  | "push_const" => (Constant.ofJson? payload).map pushConst
  | "binary_op" => (Operator.ofJson? payload).map binaryOp
  | "load_local" => payload.uint16?.map loadLocal
  | "get_static" => do
    match ← payload.record? ["owner", "name", "kind"] [] with
    | [owner, name, kind] => some (getStatic (← owner.text?) (← name.text?) (← Kind.ofJson? kind))
    | _ => none
  | "get_field" => do
    match ← payload.record? ["name", "kind"] [] with
    | [name, kind] => some (getField (← name.text?) (← Kind.ofJson? kind))
    | _ => none
  | "put_field" => do
    match ← payload.record? ["name"] [] with
    | [name] => some (putField (← name.text?))
    | _ => none
  | "invoke" => (Call.ofJson? payload).map invoke
  | "new" => payload.text?.map new
  | "local_name" => do
    match ← payload.record? ["slot", "name"] [] with
    | [slot, name] => some (localName (← slot.uint16?) (← name.text?))
    | _ => none
  | "other" => do
    match ← payload.record? ["mnemonic"] [] with
    | [mnemonic] => some (other (← mnemonic.text?))
    | _ => none
  | _ => none

/-- Reads an instruction. -/
def ofJson? (json : Json) : Option Instruction := do
  let (name, payload) ← json.variant?
  match payload with
  | none => plain? name
  | some payload =>
    match withOperands? name payload with
    | some instruction => some instruction
    | none => if Json.isUnit (some payload) then plain? name else none

end Instruction

/-! ### Bodies -/

/-- Why a text does not hold bodies. -/
inductive BodyTextError where
  /-- The text is not JSON. -/
  | json (fault : Json.Fault)
  /-- The text is JSON, but neither a list of bodies nor one body. -/
  | shape
  /-- A body does not pass its checks. -/
  | invalid (fault : BodyFault)
  deriving DecidableEq, Repr

namespace Body

/-- The JSON form of a body. -/
def toJson (body : Body) : Json :=
  .object [
    ("declaring_class", .string body.declaringClass),
    ("superclass", .string body.superclass),
    ("parameters", .array (body.parameters.map Kind.toJson)),
    ("instructions", .array (body.instructions.map Instruction.toJson))]

/-- Reads a body. -/
def ofJson? (json : Json) : Option Body := do
  match ← json.record? ["declaring_class", "superclass", "parameters", "instructions"] [] with
  | [declaringClass, superclass, parameters, instructions] =>
    let declaringClass ← declaringClass.text?
    let superclass ← superclass.text?
    let parameters ← parameters.list? Kind.ofJson?
    let instructions ← instructions.list? Instruction.ofJson?
    pure { declaringClass, superclass, parameters, instructions }
  | _ => none

/-- Reads a list of bodies, or one body in place of a list. -/
def listOfJson? (json : Json) : Option (List Body) :=
  match json.list? ofJson? with
  | some bodies => some bodies
  | none => (ofJson? json).map ([·])

/-- The text of a list of bodies. -/
def toText (bodies : List Body) : String :=
  Json.pretty (.array (bodies.map toJson))

/-- Reads the bodies from a text and checks them. A value of the wrong shape is reported before
anything that follows it. -/
def ofText (text : String) : Except BodyTextError (List Body) :=
  match Json.readFront Json.nestingLimit text with
  | .error fault => .error (.json fault)
  | .ok (json, rest) =>
    match listOfJson? json with
    | none => .error .shape
    | some bodies =>
      if Json.isFinished rest then
        match checkAll bodies with
        | .error fault => .error (.invalid fault)
        | .ok () => .ok bodies
      else .error (.json .malformed)

end Body

end FieldFlow
