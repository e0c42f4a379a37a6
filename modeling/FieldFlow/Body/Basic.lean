import FieldFlow.Instruction
import FieldFlow.Text.Blank

/-!
# Constructor bodies

A decoded constructor, and the checks that every body passes before it is stored or analyzed.

## Main Definitions

* `Body`: the class, its superclass, the parameters and the instructions
* `Body.check`: the structural checks

## Design Notes

The checks do not look at the instructions. A body that passes them may still hold instructions
outside the dialect that can be analyzed.
-/

namespace FieldFlow

/-- The name that every instance initializer has. -/
def initializerName : String := "<init>"

/-- One decoded constructor. -/
structure Body where
  declaringClass : String
  superclass : String
  parameters : List Kind
  instructions : List Instruction
  deriving DecidableEq

namespace Body

/-- Local slots for the new object and for every parameter. -/
def parameterSlots (body : Body) : Nat :=
  1 + Kind.totalWidth body.parameters

/-- The descriptor of the constructor. -/
def descriptor (body : Body) : String :=
  Signature.descriptor ⟨body.parameters, none⟩

end Body

/-- What the structural checks find wrong with a body. -/
inductive BodyFault where
  | noDeclaringClass
  | noSuperclass (declaringClass : String)
  | tooManySlots (declaringClass : String) (slots : Nat)
  deriving DecidableEq, Repr

/-- The fault in words. -/
def BodyFault.message : BodyFault → String
  | noDeclaringClass => "constructor has no declaring class"
  | noSuperclass declaringClass => "constructor of " ++ declaringClass ++ " has no superclass"
  | tooManySlots declaringClass slots =>
    "constructor of " ++ declaringClass ++ " declares " ++ toString slots ++
      " parameter slots, more than a method can address"

/-- The structural checks, in the order in which their faults are reported: both class names are
given, and a 16-bit slot number reaches every parameter. -/
def Body.check (body : Body) : Except BodyFault Unit :=
  if Text.isBlank body.declaringClass then .error .noDeclaringClass
  else if Text.isBlank body.superclass then .error (.noSuperclass body.declaringClass)
  else if 65535 < body.parameterSlots then
    .error (.tooManySlots body.declaringClass body.parameterSlots)
  else .ok ()

/-- Checks every body of a list; the first fault found is reported. -/
def Body.checkAll : List Body → Except BodyFault Unit
  | [] => .ok ()
  | body :: bodies =>
    match body.check with
    | .error fault => .error fault
    | .ok () => checkAll bodies

end FieldFlow
