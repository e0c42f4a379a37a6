import FieldFlow.Decimal.Layout
import FieldFlow.Text.Quoted

/-!
# Constants

The literal operand of a load from the constant pool.

## Main Definitions

* `Constant`: the literal
* `Constant.text`: the literal as listings and rendered values show it
-/

namespace FieldFlow

/-- A literal of the constant pool. -/
inductive Constant where
  | null
  | int (value : Int32)
  | long (value : Int64)
  | float (value : Single)
  | double (value : Double)
  | string (value : String)
  | classLiteral (name : String)
  deriving DecidableEq, Inhabited

namespace Constant

/-- The null reference, strings and class literals are objects. -/
def isReference : Constant → Bool
  | null | string _ | classLiteral _ => true
  | _ => false

/-- The literal as listings and rendered values show it. -/
def text : Constant → String
  | null => "null"
  | int value => toString value.toInt
  | long value => toString value.toInt ++ "L"
  | float value => value.listed ++ "f"
  | double value => value.listed
  | string value => Text.quote value
  | classLiteral name => name ++ ".class"

end Constant

end FieldFlow
