import FieldFlow.Body.Basic
import FieldFlow.Container.Bytes

/-!
# Bodies as bytes

The binary form of constructor bodies and of their parts.

## Main Definitions

* `Kind.toBytes`, `Constant.toBytes`, `Call.toBytes`, `Instruction.toBytes`, `Body.toBytes`
* `Kind.read`, `Constant.read`, `Call.read`, `Instruction.read`, `Body.read` of the namespace
  `Bytes`

## Design Notes

The alternatives of each type are numbered from zero in the order of its declaration. Signed
numbers are stored in two's complement and floating-point numbers by their bit patterns.
-/

namespace FieldFlow

open Bytes (Reader)

/-! ### Writing -/

/-- The bytes of a kind. -/
def Kind.toBytes : Kind → List UInt8
  | boolean => Bytes.alternative 0
  | byte => Bytes.alternative 1
  | char => Bytes.alternative 2
  | short => Bytes.alternative 3
  | int => Bytes.alternative 4
  | long => Bytes.alternative 5
  | float => Bytes.alternative 6
  | double => Bytes.alternative 7
  | reference name => Bytes.alternative 8 ++ Bytes.text name

/-- The bytes of a constant. -/
def Constant.toBytes : Constant → List UInt8
  | null => Bytes.alternative 0
  | int value => Bytes.alternative 1 ++ Bytes.number 4 value.toUInt32.toNat
  | long value => Bytes.alternative 2 ++ Bytes.number 8 value.toUInt64.toNat
  | float value => Bytes.alternative 3 ++ Bytes.number 4 value.bits.toNat
  | double value => Bytes.alternative 4 ++ Bytes.number 8 value.bits.toNat
  | string value => Bytes.alternative 5 ++ Bytes.text value
  | classLiteral name => Bytes.alternative 6 ++ Bytes.text name

/-- The bytes of an operator. -/
def Operator.toBytes : Operator → List UInt8
  | add => Bytes.alternative 0
  | sub => Bytes.alternative 1
  | mul => Bytes.alternative 2
  | div => Bytes.alternative 3
  | rem => Bytes.alternative 4
  | shl => Bytes.alternative 5
  | shr => Bytes.alternative 6
  | ushr => Bytes.alternative 7
  | and => Bytes.alternative 8
  | or => Bytes.alternative 9
  | xor => Bytes.alternative 10

/-- The bytes of a kind of call. -/
def CallKind.toBytes : CallKind → List UInt8
  | virtual => Bytes.alternative 0
  | special => Bytes.alternative 1
  | static => Bytes.alternative 2
  | interface => Bytes.alternative 3

/-- The bytes of a call. -/
def Call.toBytes (call : Call) : List UInt8 :=
  call.kind.toBytes ++ Bytes.text call.owner ++ Bytes.text call.name ++
    Bytes.list Kind.toBytes call.args ++ Bytes.optional Kind.toBytes call.returns

/-- The bytes of an instruction. -/
def Instruction.toBytes : Instruction → List UInt8
  | pushNull => Bytes.alternative 0
  | pushInt value => Bytes.alternative 1 ++ Bytes.number 8 value.toUInt64.toNat
  | pushConst constant => Bytes.alternative 2 ++ constant.toBytes
  | pop => Bytes.alternative 3
  | pop2 => Bytes.alternative 4
  | dup => Bytes.alternative 5
  | binaryOp operator => Bytes.alternative 6 ++ operator.toBytes
  | loadLocal slot => Bytes.alternative 7 ++ Bytes.number 2 slot.toNat
  | getStatic owner name kind =>
    Bytes.alternative 8 ++ Bytes.text owner ++ Bytes.text name ++ kind.toBytes
  | getField name kind => Bytes.alternative 9 ++ Bytes.text name ++ kind.toBytes
  | putField name => Bytes.alternative 10 ++ Bytes.text name
  | invoke call => Bytes.alternative 11 ++ call.toBytes
  | new className => Bytes.alternative 12 ++ Bytes.text className
  | localName slot name => Bytes.alternative 13 ++ Bytes.number 2 slot.toNat ++ Bytes.text name
  | returnVoid => Bytes.alternative 14
  | other mnemonic => Bytes.alternative 15 ++ Bytes.text mnemonic

/-- The bytes of a body. -/
def Body.toBytes (body : Body) : List UInt8 :=
  Bytes.text body.declaringClass ++ Bytes.text body.superclass ++
    Bytes.list Kind.toBytes body.parameters ++ Bytes.list Instruction.toBytes body.instructions

namespace Bytes

/-! ### Reading -/

/-- The reader of an alternative that carries nothing. -/
def nothing {α : Type} (value : α) : Reader α := fun input =>
  .ok (value, input)

/-- Reads a kind. -/
def readKind : Reader Kind :=
  (readAlternative 9).andThen fun
    | 0 => nothing .boolean
    | 1 => nothing .byte
    | 2 => nothing .char
    | 3 => nothing .short
    | 4 => nothing .int
    | 5 => nothing .long
    | 6 => nothing .float
    | 7 => nothing .double
    | _ => Reader.map .reference readText

/-- Reads a signed number of 32 bits. -/
def readInt32 : Reader Int32 :=
  (readNumber 4).map fun n => (UInt32.ofNat n).toInt32

/-- Reads a signed number of 64 bits. -/
def readInt64 : Reader Int64 :=
  (readNumber 8).map fun n => (UInt64.ofNat n).toInt64

/-- Reads a slot. -/
def readSlot : Reader UInt16 :=
  (readNumber 2).map .ofNat

/-- Reads a constant. -/
def readConstant : Reader Constant :=
  (readAlternative 7).andThen fun
    | 0 => nothing .null
    | 1 => readInt32.map .int
    | 2 => readInt64.map .long
    | 3 => (readNumber 4).map fun n => .float ⟨.ofNat n⟩
    | 4 => (readNumber 8).map fun n => .double ⟨.ofNat n⟩
    | 5 => Reader.map .string readText
    | _ => Reader.map .classLiteral readText

/-- Reads an operator. -/
def readOperator : Reader Operator :=
  (readAlternative 11).map fun
    | 0 => .add
    | 1 => .sub
    | 2 => .mul
    | 3 => .div
    | 4 => .rem
    | 5 => .shl
    | 6 => .shr
    | 7 => .ushr
    | 8 => .and
    | 9 => .or
    | _ => .xor

/-- Reads a kind of call. -/
def readCallKind : Reader CallKind :=
  (readAlternative 4).map fun
    | 0 => .virtual
    | 1 => .special
    | 2 => .static
    | _ => .interface

/-- Reads a call. -/
def readCall : Reader Call :=
  readCallKind.andThen fun kind =>
  Reader.andThen readText fun owner =>
  Reader.andThen readText fun name =>
  (readList readKind).andThen fun args =>
  (readOptional readKind).map fun returns => { kind, owner, name, args, returns }

/-- Reads an instruction. -/
def readInstruction : Reader Instruction :=
  (readAlternative 16).andThen fun
    | 0 => nothing .pushNull
    | 1 => readInt64.map .pushInt
    | 2 => readConstant.map .pushConst
    | 3 => nothing .pop
    | 4 => nothing .pop2
    | 5 => nothing .dup
    | 6 => readOperator.map .binaryOp
    | 7 => readSlot.map .loadLocal
    | 8 =>
      Reader.andThen readText fun owner =>
      Reader.andThen readText fun name =>
      readKind.map fun kind => .getStatic owner name kind
    | 9 => Reader.andThen readText fun name => readKind.map fun kind => .getField name kind
    | 10 => Reader.map .putField readText
    | 11 => readCall.map .invoke
    | 12 => Reader.map .new readText
    | 13 => readSlot.andThen fun slot => Reader.map (.localName slot) readText
    | 14 => nothing .returnVoid
    | _ => Reader.map .other readText

/-- Reads a body. -/
def readBody : Reader Body :=
  Reader.andThen readText fun declaringClass =>
  Reader.andThen readText fun superclass =>
  (readList readKind).andThen fun parameters =>
  (readList readInstruction).map fun instructions =>
    { declaringClass, superclass, parameters, instructions }

end Bytes

end FieldFlow
