/-!
# Byte fields

Numbers, strings and lists as the bytes of a binary file.

## Main Definitions

* `Bytes.number`, `Bytes.text`, `Bytes.list`, `Bytes.optional`: writing
* `Bytes.Reader`: a reader takes what is left of the input and returns the rest
* `Bytes.readNumber`, `Bytes.readText`, `Bytes.readList`, `Bytes.readOptional`: reading

## Design Notes

Numbers have a fixed number of bytes, the least significant first. A string or a list is preceded
by its length in eight bytes; the length of a string counts its bytes in UTF-8. Alternatives are
numbered in four bytes.
-/

namespace FieldFlow.Bytes

/-- Why bytes cannot be read. -/
inductive Fault where
  /-- The input ends too early. -/
  | truncated
  /-- The bytes of a string are not UTF-8. -/
  | notText
  /-- There is no alternative with this number. -/
  | noAlternative (index alternatives : Nat)
  /-- An optional value is neither absent nor present. -/
  | noTag (tag : Nat)
  deriving DecidableEq, Repr

/-- A reader takes what is left of the input and returns a value with the rest. -/
abbrev Reader (α : Type) := List UInt8 → Except Fault (α × List UInt8)

/-! ### Writing -/

/-- A number in a fixed count of bytes, the least significant first. -/
def number : Nat → Nat → List UInt8
  | 0, _ => []
  | count + 1, n => .ofNat (n % 256) :: number count (n / 256)

/-- The number of an alternative. -/
def alternative (index : Nat) : List UInt8 :=
  number 4 index

/-- The length of a string or list. -/
def length (n : Nat) : List UInt8 :=
  number 8 n

/-- A string: its length in bytes, and its bytes. -/
def text (text : String) : List UInt8 :=
  let bytes := text.toByteArray.data.toList
  length bytes.length ++ bytes

/-- A list: its length, and its items one after another. -/
def list {α : Type} (item : α → List UInt8) (items : List α) : List UInt8 :=
  length items.length ++ items.flatMap item

/-- An optional value: a byte that tells whether it is present, and the value if it is. -/
def optional {α : Type} (item : α → List UInt8) : Option α → List UInt8
  | none => [0]
  | some value => 1 :: item value

/-! ### Reading -/

/-- A given count of bytes. -/
def readBytes (count : Nat) : Reader (List UInt8) := fun input =>
  let bytes := input.take count
  if bytes.length = count then .ok (bytes, input.drop count) else .error .truncated

/-- The number that bytes stand for, the least significant first. -/
def value : List UInt8 → Nat
  | [] => 0
  | byte :: bytes => byte.toNat + 256 * value bytes

/-- A number in a fixed count of bytes. -/
def readNumber (count : Nat) : Reader Nat := fun input =>
  match readBytes count input with
  | .error fault => .error fault
  | .ok (bytes, rest) => .ok (value bytes, rest)

/-- The number of one of several alternatives. -/
def readAlternative (alternatives : Nat) : Reader Nat := fun input =>
  match readNumber 4 input with
  | .error fault => .error fault
  | .ok (index, rest) =>
    if index < alternatives then .ok (index, rest)
    else .error (.noAlternative index alternatives)

/-- A string. -/
def readText : Reader String := fun input =>
  match readNumber 8 input with
  | .error fault => .error fault
  | .ok (count, rest) =>
    match readBytes count rest with
    | .error fault => .error fault
    | .ok (bytes, rest) =>
      match String.fromUTF8? ⟨⟨bytes⟩⟩ with
      | some text => .ok (text, rest)
      | none => .error .notText

/-- A given number of items. -/
def readItems {α : Type} (item : Reader α) : Nat → Reader (List α)
  | 0, input => .ok ([], input)
  | count + 1, input =>
    match item input with
    | .error fault => .error fault
    | .ok (value, rest) =>
      match readItems item count rest with
      | .error fault => .error fault
      | .ok (values, rest) => .ok (value :: values, rest)

/-- A list. -/
def readList {α : Type} (item : Reader α) : Reader (List α) := fun input =>
  match readNumber 8 input with
  | .error fault => .error fault
  | .ok (count, rest) => readItems item count rest

/-- An optional value. -/
def readOptional {α : Type} (item : Reader α) : Reader (Option α) := fun input =>
  match readNumber 1 input with
  | .error fault => .error fault
  | .ok (0, rest) => .ok (none, rest)
  | .ok (1, rest) =>
    match item rest with
    | .error fault => .error fault
    | .ok (value, rest) => .ok (some value, rest)
  | .ok (tag, _) => .error (.noTag tag)

/-- A value made from what a reader returns. -/
def Reader.map {α β : Type} (f : α → β) (reader : Reader α) : Reader β := fun input =>
  match reader input with
  | .error fault => .error fault
  | .ok (value, rest) => .ok (f value, rest)

/-- One reader after another. -/
def Reader.andThen {α β : Type} (reader : Reader α) (next : α → Reader β) : Reader β :=
  fun input =>
    match reader input with
    | .error fault => .error fault
    | .ok (value, rest) => next value rest

end FieldFlow.Bytes
