/-!
# Kinds

The static type of a parameter, an argument or a field: one of the eight primitive types, or a
reference to a class.

## Main Definitions

* `Kind`: the type itself
* `Kind.width`: how many local slots a value of the kind takes
* `Kind.text`: the name shown in listings and reports

## Design Notes

An array type is a reference whose class name is the array's descriptor, kept as it was written.
Nothing in the library looks inside such a name except for its first character.
-/

namespace FieldFlow

/-- The static type of a parameter, an argument or a field. -/
inductive Kind where
  | boolean
  | byte
  | char
  | short
  | int
  | long
  | float
  | double
  | reference (className : String)
  deriving DecidableEq, Repr, Inhabited

namespace Kind

/-- A reference kind is one whose values live behind a cell. -/
def isReference : Kind → Bool
  | reference _ => true
  | _ => false

/-- The two kinds of 64 bits, `long` and `double`, are wide. -/
def isWide : Kind → Bool
  | long | double => true
  | _ => false

/-- Local slots taken by a value of the kind: two for a wide kind, one for any other. -/
def width (kind : Kind) : Nat :=
  if kind.isWide then 2 else 1

/-- The class that a reference kind names. -/
def className? : Kind → Option String
  | reference name => some name
  | _ => none

/-- The name of the kind as listings and reports show it. -/
def text : Kind → String
  | boolean => "boolean"
  | byte => "byte"
  | char => "char"
  | short => "short"
  | int => "int"
  | long => "long"
  | float => "float"
  | double => "double"
  | reference name => name

/-- A value of any kind takes at least one slot. -/
theorem width_pos (kind : Kind) : 0 < kind.width := by
  unfold width
  split <;> decide

/-- Slots taken by a list of kinds, one after another. -/
def totalWidth (kinds : List Kind) : Nat :=
  kinds.foldr (fun kind total => kind.width + total) 0

@[simp] theorem totalWidth_nil : totalWidth [] = 0 := rfl

@[simp] theorem totalWidth_cons (kind : Kind) (kinds : List Kind) :
    totalWidth (kind :: kinds) = kind.width + totalWidth kinds := rfl

theorem totalWidth_append (kinds more : List Kind) :
    totalWidth (kinds ++ more) = totalWidth kinds + totalWidth more := by
  induction kinds with
  | nil => simp
  | cons kind kinds ih => simp [ih, Nat.add_assoc]

end Kind

end FieldFlow
