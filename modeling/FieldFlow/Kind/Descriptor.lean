import FieldFlow.Kind.Basic
import FieldFlow.Text.Quoted

/-!
# Descriptors

The compact spelling of kinds and of method signatures: one letter for a primitive, `L…;` around a
class name, `[` before an element type, and `(…)` around the arguments of a method.

## Main Definitions

* `Kind.descriptor`, `Kind.ofDescriptor`: a kind and its spelling
* `Signature`: the arguments and the result of a method
* `Signature.descriptor`, `Signature.ofDescriptor`: a signature and its spelling

## Design Notes

Reading works on lists of characters and returns what is left over, so that the arguments of a
signature are read by one loop. Class names are kept with dots; the spelling has slashes. An
array keeps its spelling as its class name.
-/

namespace FieldFlow

/-! ### Errors -/

/-- What is wrong with a descriptor. -/
inductive DescriptorFault where
  | empty
  | unknownCharacter (c : Char)
  | unclosedClass
  | trailing (rest : String)
  | noOpening
  | noClosing
  deriving DecidableEq, Repr

namespace DescriptorFault

/-- The fault in words. -/
def message : DescriptorFault → String
  | empty => "empty descriptor"
  | unknownCharacter c => "unknown descriptor character " ++ Text.quoteChar c
  | unclosedClass => "class descriptor is missing ';'"
  | trailing rest => "trailing characters " ++ Text.quote rest
  | noOpening => "method descriptor must start with '('"
  | noClosing => "method descriptor is missing ')'"

end DescriptorFault

/-- A fault together with the text in which it was found. For a fault inside a list of types that
text begins at the type which could not be read. -/
structure DescriptorError where
  descriptor : String
  fault : DescriptorFault
  deriving DecidableEq, Repr

/-- The error in words. -/
def DescriptorError.message (error : DescriptorError) : String :=
  "invalid descriptor " ++ Text.quote error.descriptor ++ ": " ++ error.fault.message

/-! ### Kinds -/

namespace Kind

/-- Class names are written with slashes in a descriptor. -/
def dotToSlash (c : Char) : Char :=
  if c = '.' then '/' else c

/-- Class names are kept with dots. -/
def slashToDot (c : Char) : Char :=
  if c = '/' then '.' else c

/-- The spelling of a reference: an array's name is its spelling already. -/
def spellReference (name : List Char) : List Char :=
  match name with
  | '[' :: _ => name
  | _ => 'L' :: name.map dotToSlash ++ [';']

/-- The characters of a kind's descriptor. -/
def spell : Kind → List Char
  | boolean => ['Z']
  | byte => ['B']
  | char => ['C']
  | short => ['S']
  | int => ['I']
  | long => ['J']
  | float => ['F']
  | double => ['D']
  | reference name => spellReference name.toList

/-- The descriptor of a kind. -/
def descriptor (kind : Kind) : String :=
  String.ofList kind.spell

/-- Reads one type that is not an array from the front of the input and returns the rest. -/
def readElement : List Char → Except DescriptorError (Kind × List Char)
  | [] => .error ⟨"", .empty⟩
  | 'Z' :: rest => .ok (boolean, rest)
  | 'B' :: rest => .ok (byte, rest)
  | 'C' :: rest => .ok (char, rest)
  | 'S' :: rest => .ok (short, rest)
  | 'I' :: rest => .ok (int, rest)
  | 'J' :: rest => .ok (long, rest)
  | 'F' :: rest => .ok (float, rest)
  | 'D' :: rest => .ok (double, rest)
  | 'L' :: rest =>
    match rest.dropWhile (· != ';') with
    | [] => .error ⟨String.ofList ('L' :: rest), .unclosedClass⟩
    | _ :: after =>
      .ok (reference (String.ofList ((rest.takeWhile (· != ';')).map slashToDot)), after)
  | c :: rest => .error ⟨String.ofList (c :: rest), .unknownCharacter c⟩

/-- Reads one type from the front of the input and returns the rest. The brackets of an array stand
before the type of its elements, and all of these characters are its name. -/
def read (input : List Char) : Except DescriptorError (Kind × List Char) :=
  match readElement (input.dropWhile (· == '[')) with
  | .error error => .error error
  | .ok (kind, rest) =>
    if input.head? = some '[' then
      .ok (reference (String.ofList (input.take (input.length - rest.length))), rest)
    else .ok (kind, rest)

/-- Reading the type of an element takes at least one character. -/
theorem length_lt_of_readElement {input rest : List Char} {kind : Kind}
    (h : readElement input = .ok (kind, rest)) : rest.length < input.length := by
  unfold readElement at h
  split at h
  case h_10 body =>
    have hle := (List.dropWhile_suffix (l := body) (· != ';')).length_le
    split at h
    · contradiction
    next c after hdrop =>
      cases h
      rw [hdrop, List.length_cons] at hle
      rw [List.length_cons]
      omega
  all_goals cases h
  all_goals exact Nat.lt_add_one _

/-- Reading a type takes at least one character. -/
theorem length_lt_of_read {input rest : List Char} {kind : Kind}
    (h : read input = .ok (kind, rest)) : rest.length < input.length := by
  have hle := (List.dropWhile_suffix (l := input) (· == '[')).length_le
  unfold read at h
  split at h
  · contradiction
  next found after helement =>
    have hlt := length_lt_of_readElement helement
    split at h <;> cases h <;> omega

/-- Reads a descriptor that is one type and nothing more. -/
def ofChars (input : List Char) : Except DescriptorError Kind :=
  match read input with
  | .error error => .error error
  | .ok (kind, []) => .ok kind
  | .ok (_, rest) => .error ⟨String.ofList input, .trailing (String.ofList rest)⟩

/-- Reads the descriptor of a kind. -/
def ofDescriptor (descriptor : String) : Except DescriptorError Kind :=
  ofChars descriptor.toList

/-- Reads types until the input is used up. -/
def readAll (input : List Char) : Except DescriptorError (List Kind) :=
  match input with
  | [] => .ok []
  | c :: cs =>
    match h : read (c :: cs) with
    | .error error => .error error
    | .ok (kind, rest) =>
      have := length_lt_of_read h
      match readAll rest with
      | .error error => .error error
      | .ok kinds => .ok (kind :: kinds)
  termination_by input.length
  decreasing_by exact this

end Kind

/-! ### Signatures -/

/-- The kinds of a method's arguments, and of its result unless it is void. -/
structure Signature where
  args : List Kind
  returns : Option Kind
  deriving DecidableEq, Repr

namespace Signature

/-- A void method spells its missing result as `V`. -/
def spellReturns : Option Kind → List Char
  | none => ['V']
  | some kind => kind.spell

/-- The characters of a signature's descriptor. -/
def spell (signature : Signature) : List Char :=
  '(' :: signature.args.flatMap Kind.spell ++ ')' :: spellReturns signature.returns

/-- The descriptor of a signature. -/
def descriptor (signature : Signature) : String :=
  String.ofList signature.spell

/-- Reads what follows the arguments. -/
def readReturns (input : List Char) : Except DescriptorError (Option Kind) :=
  match input with
  | ['V'] => .ok none
  | _ =>
    match Kind.ofChars input with
    | .error error => .error error
    | .ok kind => .ok (some kind)

/-- Reads a signature. The first closing parenthesis ends the arguments, wherever it stands. -/
def ofChars (input : List Char) : Except DescriptorError Signature :=
  match input with
  | '(' :: body =>
    match body.dropWhile (· != ')') with
    | [] => .error ⟨String.ofList input, .noClosing⟩
    | _ :: result =>
      match Kind.readAll (body.takeWhile (· != ')')) with
      | .error error => .error error
      | .ok args =>
        match readReturns result with
        | .error error => .error error
        | .ok returns => .ok ⟨args, returns⟩
  | _ => .error ⟨String.ofList input, .noOpening⟩

/-- Reads the descriptor of a method. -/
def ofDescriptor (descriptor : String) : Except DescriptorError Signature :=
  ofChars descriptor.toList

end Signature

end FieldFlow
