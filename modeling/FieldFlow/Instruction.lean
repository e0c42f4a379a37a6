import FieldFlow.Constant
import FieldFlow.Kind.Descriptor

/-!
# Instructions

The instructions of a constructor body and their text in a listing.

## Main Definitions

* `Operator`, `CallKind`, `Call`: the parts of instructions
* `Instruction`: one decoded instruction
* `Instruction.text`: its line in a listing

## Design Notes

Instructions without a shape of their own are kept by their mnemonic alone. They can be listed and
stored, but no body that holds one can be analyzed.
-/

namespace FieldFlow

/-! ### Operators -/

/-- Arithmetic and bitwise operators, whatever the width of their operands. -/
inductive Operator where
  | add
  | sub
  | mul
  | div
  | rem
  | shl
  | shr
  | ushr
  | and
  | or
  | xor
  deriving DecidableEq, Repr, Inhabited

namespace Operator

/-- The sign between the operands of a rendered value. -/
def symbol : Operator → String
  | add => "+"
  | sub => "-"
  | mul => "*"
  | div => "/"
  | rem => "%"
  | shl => "<<"
  | shr => ">>"
  | ushr => ">>>"
  | and => "&"
  | or => "|"
  | xor => "^"

/-- The name of the instruction that applies the operator. -/
def mnemonic : Operator → String
  | add => "add"
  | sub => "sub"
  | mul => "mul"
  | div => "div"
  | rem => "rem"
  | shl => "shl"
  | shr => "shr"
  | ushr => "ushr"
  | and => "and"
  | or => "or"
  | xor => "xor"

end Operator

/-! ### Calls -/

/-- How the target of a call is found. -/
inductive CallKind where
  | virtual
  | special
  | static
  | interface
  deriving DecidableEq, Repr, Inhabited

/-- The name of the instruction that makes a call of the kind. -/
def CallKind.mnemonic : CallKind → String
  | virtual => "invokevirtual"
  | special => "invokespecial"
  | static => "invokestatic"
  | interface => "invokeinterface"

/-- A call: the class and the name of the method, and its signature. -/
structure Call where
  kind : CallKind
  owner : String
  name : String
  args : List Kind
  /-- Absent for a void method. -/
  returns : Option Kind
  deriving DecidableEq, Repr

namespace Call

/-- A static call has no receiver. -/
def isStatic (call : Call) : Bool :=
  call.kind == .static

/-- Whether the call leaves a result. -/
def hasResult (call : Call) : Bool :=
  call.returns.isSome

/-- The kinds of the arguments and of the result. -/
def signature (call : Call) : Signature :=
  ⟨call.args, call.returns⟩

/-- The descriptor of the method called. -/
def descriptor (call : Call) : String :=
  call.signature.descriptor

/-- The call as listings show it. -/
def text (call : Call) : String :=
  call.kind.mnemonic ++ " " ++ call.owner ++ "." ++ call.name ++ call.descriptor

end Call

/-! ### Instructions -/

/-- A decoded instruction of a constructor body. -/
inductive Instruction where
  | pushNull
  | pushInt (value : Int64)
  | pushConst (constant : Constant)
  | pop
  | pop2
  | dup
  | binaryOp (operator : Operator)
  | loadLocal (slot : UInt16)
  | getStatic (owner name : String) (kind : Kind)
  | getField (name : String) (kind : Kind)
  | putField (name : String)
  | invoke (call : Call)
  | new (className : String)
  | localName (slot : UInt16) (name : String)
  | returnVoid
  | other (mnemonic : String)
  deriving DecidableEq, Inhabited

/-- The instruction as listings show it. -/
def Instruction.text : Instruction → String
  | pushNull => "aconst_null"
  | pushInt value => "push " ++ toString value.toInt
  | pushConst constant => "ldc " ++ constant.text
  | pop => "pop"
  | pop2 => "pop2"
  | dup => "dup"
  | binaryOp operator => operator.mnemonic
  | loadLocal slot => "load " ++ toString slot.toNat
  | getStatic owner name kind => "getstatic " ++ owner ++ "#" ++ name ++ " : " ++ kind.text
  | getField name kind => "getfield " ++ name ++ " : " ++ kind.text
  | putField name => "putfield " ++ name
  | invoke call => call.text
  | new className => "new " ++ className
  | localName slot name => "local " ++ toString slot.toNat ++ " " ++ name
  | returnVoid => "return"
  | other mnemonic => mnemonic

end FieldFlow
