/-!
# Analysis errors

Why a constructor is not a trivial initializer.

## Main Definitions

* `Unsupported`: the ways in which a body leaves the dialect that can be analyzed
* `AnalysisError`: all reasons for rejecting a constructor
* `AnalysisError.code`, `AnalysisError.message`: their names and their texts

## Design Notes

The message of an unsupported body does not say what is unsupported. The reason is a text of its
own, for logs.
-/

namespace FieldFlow

/-- How a body leaves the dialect that can be analyzed. -/
inductive Unsupported where
  | tooLong (instructions limit : Nat)
  | underflow
  | missingArguments (needed held : Nat)
  | slotOutside (slot slots : Nat)
  | leftover (values : Nat)
  | afterReturn (offset : Nat)
  | noReturn
  | foreign (mnemonic : String)
  | severalConstructors
  deriving DecidableEq, Repr

/-- The reason in words. -/
def Unsupported.reason : Unsupported → String
  | tooLong instructions limit =>
    toString instructions ++ " instructions exceed the limit of " ++ toString limit
  | underflow => "operand stack underflow"
  | missingArguments needed held =>
    "call needs " ++ toString needed ++ " arguments but the stack holds " ++ toString held
  | slotOutside slot slots =>
    "load of local slot " ++ toString slot ++ " outside the " ++ toString slots ++
      " parameter slots"
  | leftover values => "return with " ++ toString values ++ " values left on the stack"
  | afterReturn offset => "instructions follow the return at " ++ toString offset
  | noReturn => "body ends without returning"
  | foreign mnemonic => "instruction " ++ mnemonic ++ " is outside the accepted dialect"
  | severalConstructors => "class has more than one constructor to analyze"

/-- Why a constructor is rejected. -/
inductive AnalysisError where
  | unsupported (cause : Unsupported)
  | duplicateField (field : String)
  | superArguments
  | selfDelegation
  | derivedValue (field rendered : String)
  deriving DecidableEq, Repr

namespace AnalysisError

/-- A short name of the kind of error. -/
def code : AnalysisError → String
  | unsupported _ => "unsupported-construct"
  | duplicateField _ => "duplicate-field-assignment"
  | superArguments => "illegal-super-delegation"
  | selfDelegation => "illegal-self-delegation"
  | derivedValue _ _ => "non-idempotent-assignment"

/-- The error in words. -/
def message : AnalysisError → String
  | unsupported _ => "illegal constructor"
  | duplicateField field => "field " ++ field ++ " is assigned more than once"
  | superArguments => "constructor passes arguments to the superclass constructor"
  | selfDelegation => "constructor delegates to another constructor of its own class"
  | derivedValue field rendered =>
    "non-idempotent expression " ++ rendered ++ " assigned to field " ++ field

end AnalysisError

end FieldFlow
