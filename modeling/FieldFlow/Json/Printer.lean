import FieldFlow.Decimal.Layout
import FieldFlow.Json.Basic

/-!
# Writing JSON

## Main Definitions

* `Json.write`: the characters of a value, laid out over several lines
* `Json.pretty`: the text of a value

## Design Notes

Every level of nesting is indented by two spaces, and empty arrays and objects stay on one line.
JSON has no NaN and no infinity, so they are written as null.
-/

namespace FieldFlow

/-- Numbers of the 32-bit format have no exponent from a millionth up to ten trillion. -/
def Decimal.Layout.jsonSingle : Decimal.Layout where
  positional leading := -6 ≤ leading && leading ≤ 12
  pointZero := true
  tie := .toEven
  nan := "null"
  infinity := "null"

/-- Numbers of the 64-bit format have no exponent from a hundred-thousandth up to ten
quadrillion. -/
def Decimal.Layout.jsonDouble : Decimal.Layout where
  positional leading := -5 ≤ leading && leading ≤ 15
  pointZero := true
  tie := .toEven
  nan := "null"
  infinity := "null"

namespace Json

/-- Two hexadecimal digits of a number below 256. -/
def hexByte (n : Nat) : List Char :=
  [Nat.digitChar (n / 16), Nat.digitChar (n % 16)]

/-- One character of a string. -/
def escape (c : Char) : List Char :=
  match c with
  | '"' => ['\\', '"']
  | '\\' => ['\\', '\\']
  | '\x08' => ['\\', 'b']
  | '\x0c' => ['\\', 'f']
  | '\n' => ['\\', 'n']
  | '\r' => ['\\', 'r']
  | '\t' => ['\\', 't']
  | _ => if c.toNat < 0x20 then ['\\', 'u', '0', '0'] ++ hexByte c.toNat else [c]

/-- A string between its quotes. -/
def writeString (text : String) : List Char :=
  '"' :: text.toList.flatMap escape ++ ['"']

/-- An integer. -/
def writeInt (n : Int) : List Char :=
  (if n < 0 then ['-'] else []) ++ Decimal.digitsOf n.natAbs

/-- A finite number in the given layout, and null for any other. -/
def writeFloat (layout : Decimal.Layout) (format : Decimal.Format) (bits : Nat) : List Char :=
  match format.decode bits with
  | .nan | .infinite => ['n', 'u', 'l', 'l']
  | _ => layout.write format bits

/-- A line break and the indentation of the next line. -/
def newLine (level : Nat) : List Char :=
  '\n' :: List.replicate (2 * level) ' '

mutual

/-- The characters of a value whose first line stands at an indentation level. -/
def write (level : Nat) : Json → List Char
  | null => ['n', 'u', 'l', 'l']
  | bool true => ['t', 'r', 'u', 'e']
  | bool false => ['f', 'a', 'l', 's', 'e']
  | int value => writeInt value
  | single value => writeFloat .jsonSingle Decimal.single value.bits.toNat
  | double value => writeFloat .jsonDouble Decimal.double value.bits.toNat
  | string text => writeString text
  | array [] => ['[', ']']
  | array (item :: items) =>
    '[' :: newLine (level + 1) ++ write (level + 1) item ++ writeItems (level + 1) items ++
      newLine level ++ [']']
  | object [] => ['{', '}']
  | object ((name, value) :: members) =>
    '{' :: newLine (level + 1) ++ writeString name ++ ':' :: ' ' :: write (level + 1) value ++
      writeMembers (level + 1) members ++ newLine level ++ ['}']

/-- The items after the first, each after a comma. -/
def writeItems (level : Nat) : List Json → List Char
  | [] => []
  | item :: items => ',' :: newLine level ++ write level item ++ writeItems level items

/-- The members after the first, each after a comma. -/
def writeMembers (level : Nat) : List (String × Json) → List Char
  | [] => []
  | (name, value) :: members =>
    ',' :: newLine level ++ writeString name ++ ':' :: ' ' :: write level value ++
      writeMembers level members

end

/-- The text of a value. -/
def pretty (json : Json) : String :=
  String.ofList (json.write 0)

end Json

end FieldFlow
