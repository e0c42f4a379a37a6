import FieldFlow.Body.Basic

/-!
# Listings

The text of a constructor body, one line for its signature, for each parameter and for each
instruction.

## Main Definitions

* `Body.listing`: the listing of one body
* `Body.disassemble`: the listings of several bodies, a blank line between them
-/

namespace FieldFlow.Body

/-- The number in a column of at least four characters. -/
def offsetColumn (n : Nat) : String :=
  let digits := Nat.toDigits 10 n
  String.ofList (List.replicate (4 - digits.length) ' ' ++ digits)

/-- The line that introduces a body. -/
def headLine (body : Body) : String :=
  body.declaringClass ++ "." ++ initializerName ++ body.descriptor ++ " extends " ++
    body.superclass ++ "\n"

/-- The line of one parameter. -/
def parameterLine (index slot : Nat) (kind : Kind) : String :=
  "  p" ++ toString index ++ " : " ++ kind.text ++ " @ slot " ++ toString slot ++ "\n"

/-- The lines of the parameters from `index` on, the first of them at `slot`. -/
def parameterLines (index slot : Nat) : List Kind → List String
  | [] => []
  | kind :: kinds =>
    parameterLine index slot kind :: parameterLines (index + 1) (slot + kind.width) kinds

/-- The lines of the instructions from `offset` on. -/
def instructionLines (offset : Nat) : List Instruction → List String
  | [] => []
  | instruction :: instructions =>
    ("  " ++ offsetColumn offset ++ ": " ++ instruction.text ++ "\n") ::
      instructionLines (offset + 1) instructions

/-- The listing of a body. -/
def listing (body : Body) : String :=
  String.join (body.headLine ::
    (parameterLines 0 1 body.parameters ++ instructionLines 0 body.instructions))

/-- The listings of several bodies, with a blank line between any two. -/
def disassemble (bodies : List Body) : String :=
  String.intercalate "\n" (bodies.map listing)

end FieldFlow.Body
