import FieldFlow.Decimal.Binary

/-!
# JSON values

## Main Definitions

* `Json`: a JSON value
* `Json.variant?`: a value read as one of several named alternatives
* `Json.record?`: a value read as a group of named fields

## Design Notes

Whole numbers and floating-point numbers are different values, and a floating-point number keeps
the width of the format in which it is written. The members of an object keep their order and may
repeat a name.
-/

namespace FieldFlow

/-- A JSON value. -/
inductive Json where
  | null
  | bool (value : Bool)
  | int (value : Int)
  | single (value : Single)
  | double (value : Double)
  | string (text : String)
  | array (items : List Json)
  | object (members : List (String × Json))
  deriving Inhabited

namespace Json

/-- The text of a string value. -/
def text? : Json → Option String
  | string text => some text
  | _ => none

/-- The items of an array. -/
def items? : Json → Option (List Json)
  | array items => some items
  | _ => none

/-- An integer of at least `low` and at most `high`. Numbers written with a fraction or an
exponent are no integers. -/
def intWithin? (low high : Int) : Json → Option Int
  | int value => if low ≤ value ∧ value ≤ high then some value else none
  | _ => none

/-- A number as one of the 64-bit format. -/
def double? : Json → Option Double
  | double value => some value
  | int value => some (.ofInt value)
  | _ => none

/-- A number as one of the 32-bit format. -/
def single? : Json → Option Single
  | single value => some value
  | double value => some (.ofDouble value)
  | int value => some (.ofInt value)
  | _ => none

/-- The name of an alternative and what it carries: an alternative stands alone as a string, or as
the only name of an object. -/
def variant? : Json → Option (String × Option Json)
  | string name => some (name, none)
  | object [(name, payload)] => some (name, some payload)
  | _ => none

/-- The value of a field among the members of an object. A field may not be given twice, and is
missing as null if it is optional. -/
def field? (optional : List String) (members : List (String × Json)) (name : String) :
    Option Json :=
  match members.filter (·.1 == name) with
  | [(_, value)] => some value
  | [] => if optional.contains name then some null else none
  | _ => none

/-- The values of the named fields, in order. A group of fields is an array of exactly these, or
an object, whose other members are ignored. -/
def record? (names : List String) (optional : List String) : Json → Option (List Json)
  | array items => if items.length = names.length then some items else none
  | object members => names.mapM (field? optional members)
  | _ => none

end Json

end FieldFlow
