import FieldFlow.Json.Basic

/-!
# Reading JSON

## Main Definitions

* `Json.readFront`: the value at the front of a text
* `Json.Fault`: the two ways in which reading fails

## Design Notes

A reader takes the characters that are left and returns what it has read with the rest. The
nesting of arrays and objects is limited, and the recursion into them runs on what is left of that
limit.

The number of characters in the whole text is the bound of every loop. Each turn of a loop takes
at least one of them, so no loop comes to the end of its bound.
-/

namespace FieldFlow.Json

/-- How reading fails: the text ends too early, or goes on in a way that no JSON text does. -/
inductive Fault where
  | truncated
  | malformed
  deriving DecidableEq, Repr

/-- Arrays and objects that may be open at the same time. -/
def nestingLimit : Nat := 127

/-! ### Blanks and words -/

/-- The four characters that may stand between tokens. -/
def isBlank (c : Char) : Bool :=
  c = ' ' || c = '\n' || c = '\t' || c = '\r'

/-- What is left after the blanks at the front. -/
def skipBlanks (input : List Char) : List Char :=
  input.dropWhile isBlank

/-- What is left after a given word. -/
def readWord : List Char → List Char → Except Fault (List Char)
  | [], rest => .ok rest
  | _ :: _, [] => .error .truncated
  | w :: word, c :: rest => if c = w then readWord word rest else .error .malformed

/-- The fault of a reader that finds none of the characters it needs. -/
def faultAt : List Char → Fault
  | [] => .truncated
  | _ :: _ => .malformed

/-! ### Numbers -/

/-- The value of a sequence of decimal digits. -/
def digitsValue (digits : List Char) : Nat :=
  digits.foldl (fun n c => 10 * n + (c.toNat - '0'.toNat)) 0

/-- One or more digits. -/
def readDigits (input : List Char) : Except Fault (List Char × List Char) :=
  match input.takeWhile Char.isDigit with
  | [] => .error (faultAt input)
  | digits => .ok (digits, input.dropWhile Char.isDigit)

/-- The digits before the point; only a zero alone begins with a zero. -/
def readWhole (input : List Char) : Except Fault (List Char × List Char) :=
  match readDigits input with
  | .ok ('0' :: _ :: _, _) => .error .malformed
  | result => result

/-- The digits after the point, if there is a point. -/
def readFraction : List Char → Except Fault (Option (List Char) × List Char)
  | '.' :: rest =>
    match readDigits rest with
    | .ok (digits, rest) => .ok (some digits, rest)
    | .error fault => .error fault
  | input => .ok (none, input)

/-- The digits of an exponent with their sign. -/
def readSigned : List Char → Except Fault (Int × List Char)
  | '-' :: rest =>
    match readDigits rest with
    | .ok (digits, rest) => .ok (-(digitsValue digits : Int), rest)
    | .error fault => .error fault
  | '+' :: rest =>
    match readDigits rest with
    | .ok (digits, rest) => .ok (digitsValue digits, rest)
    | .error fault => .error fault
  | input =>
    match readDigits input with
    | .ok (digits, rest) => .ok (digitsValue digits, rest)
    | .error fault => .error fault

/-- The exponent, if there is one. -/
def readExponent : List Char → Except Fault (Option Int × List Char)
  | c :: rest =>
    if c = 'e' ∨ c = 'E' then
      match readSigned rest with
      | .ok (exponent, rest) => .ok (some exponent, rest)
      | .error fault => .error fault
    else .ok (none, c :: rest)
  | [] => .ok (none, [])

/-- The floating-point number nearest to a decimal. A number that is too large is malformed. -/
def floatOf (negative : Bool) (digits : Nat) (exponent : Int) : Except Fault Json :=
  let value := Double.ofDecimal negative digits exponent
  if value.isFinite then .ok (double value) else .error .malformed

/-- A number without fraction and exponent. It is an integer if 64 bits hold it, with a sign if it
is negative; a zero with a minus sign is not an integer. -/
def integerOf (negative : Bool) (digits : Nat) : Except Fault Json :=
  if negative then
    if 0 < digits ∧ Int64.minValue.toInt ≤ -digits then .ok (int (-digits))
    else floatOf true digits 0
  else
    if digits < UInt64.size then .ok (int digits) else floatOf false digits 0

/-- A number from its parts. -/
def numberOf (negative : Bool) (whole : List Char) (fraction : Option (List Char))
    (exponent : Option Int) : Except Fault Json :=
  match fraction, exponent with
  | none, none => integerOf negative (digitsValue whole)
  | _, _ =>
    let fraction := fraction.getD []
    floatOf negative (digitsValue (whole ++ fraction)) (exponent.getD 0 - fraction.length)

/-- A number whose sign has been read. -/
def readUnsigned (negative : Bool) (input : List Char) : Except Fault (Json × List Char) := do
  let (whole, rest) ← readWhole input
  let (fraction, rest) ← readFraction rest
  let (exponent, rest) ← readExponent rest
  let value ← numberOf negative whole fraction exponent
  pure (value, rest)

/-! ### Strings -/

/-- The value of a hexadecimal digit of either case. -/
def hexDigit? (c : Char) : Option Nat :=
  if '0' ≤ c ∧ c ≤ '9' then some (c.toNat - '0'.toNat)
  else if 'a' ≤ c ∧ c ≤ 'f' then some (c.toNat - 'a'.toNat + 10)
  else if 'A' ≤ c ∧ c ≤ 'F' then some (c.toNat - 'A'.toNat + 10)
  else none

/-- Four hexadecimal digits. Where fewer than four bytes are left, the text has ended too early,
whatever these bytes are. -/
def readHex : List Char → Except Fault (Nat × List Char)
  | a :: b :: c :: d :: rest =>
    match hexDigit? a, hexDigit? b, hexDigit? c, hexDigit? d with
    | some a, some b, some c, some d => .ok (((a * 16 + b) * 16 + c) * 16 + d, rest)
    | _, _, _, _ => .error .malformed
  | input => if (String.ofList input).utf8ByteSize < 4 then .error .truncated else .error .malformed

/-- The second half of a surrogate pair, which has to follow the first at once. -/
def readLowSurrogate (high : Nat) : List Char → Except Fault (Char × List Char)
  | [] => .error .truncated
  | '\\' :: [] => .error .truncated
  | '\\' :: 'u' :: rest =>
    match readHex rest with
    | .error fault => .error fault
    | .ok (low, rest) =>
      if 0xDC00 ≤ low ∧ low ≤ 0xDFFF then
        .ok (Char.ofNat (0x10000 + (high - 0xD800) * 0x400 + (low - 0xDC00)), rest)
      else .error .malformed
  | _ => .error .malformed

/-- The character of an escape by number. Half of a surrogate pair alone is no character. -/
def readUnicode (input : List Char) : Except Fault (Char × List Char) :=
  match readHex input with
  | .error fault => .error fault
  | .ok (n, rest) =>
    if 0xD800 ≤ n ∧ n ≤ 0xDBFF then readLowSurrogate n rest
    else if 0xDC00 ≤ n ∧ n ≤ 0xDFFF then .error .malformed
    else .ok (Char.ofNat n, rest)

/-- The character of an escape, after the backslash. -/
def readEscape : List Char → Except Fault (Char × List Char)
  | [] => .error .truncated
  | '"' :: rest => .ok ('"', rest)
  | '\\' :: rest => .ok ('\\', rest)
  | '/' :: rest => .ok ('/', rest)
  | 'b' :: rest => .ok ('\x08', rest)
  | 'f' :: rest => .ok ('\x0c', rest)
  | 'n' :: rest => .ok ('\n', rest)
  | 'r' :: rest => .ok ('\r', rest)
  | 't' :: rest => .ok ('\t', rest)
  | 'u' :: rest => readUnicode rest
  | _ => .error .malformed

/-- The characters of a string up to its closing quote, in reverse, added to those read before. -/
def readStringFrom (read : List Char) : Nat → List Char → Except Fault (List Char × List Char)
  | _, [] => .error .truncated
  | 0, _ :: _ => .error .truncated
  | bound + 1, c :: rest =>
    if c = '"' then .ok (read, rest)
    else if c = '\\' then
      match readEscape rest with
      | .error fault => .error fault
      | .ok (c, rest) => readStringFrom (c :: read) bound rest
    else if c.toNat < 0x20 then .error .malformed
    else readStringFrom (c :: read) bound rest

/-- A string whose opening quote has been read. -/
def readString (bound : Nat) (input : List Char) : Except Fault (String × List Char) :=
  match readStringFrom [] bound input with
  | .error fault => .error fault
  | .ok (read, rest) => .ok (String.ofList read.reverse, rest)

/-! ### Arrays and objects -/

/-- The items after the first, up to the closing bracket. -/
def readMoreItems (item : List Char → Except Fault (Json × List Char)) :
    Nat → List Char → Except Fault (List Json × List Char)
  | 0, _ => .error .truncated
  | bound + 1, input =>
    match skipBlanks input with
    | ']' :: rest => .ok ([], rest)
    | ',' :: rest =>
      match skipBlanks rest with
      | ']' :: _ => .error .malformed
      | rest =>
        match item rest with
        | .error fault => .error fault
        | .ok (value, rest) =>
          match readMoreItems item bound rest with
          | .error fault => .error fault
          | .ok (values, rest) => .ok (value :: values, rest)
    | rest => .error (faultAt rest)

/-- The items of an array whose opening bracket has been read. -/
def readItems (item : List Char → Except Fault (Json × List Char)) (bound : Nat)
    (input : List Char) : Except Fault (List Json × List Char) :=
  match skipBlanks input with
  | ']' :: rest => .ok ([], rest)
  | rest =>
    match item rest with
    | .error fault => .error fault
    | .ok (value, rest) =>
      match readMoreItems item bound rest with
      | .error fault => .error fault
      | .ok (values, rest) => .ok (value :: values, rest)

/-- A member of an object: a name, a colon and a value. -/
def readMember (item : List Char → Except Fault (Json × List Char)) (bound : Nat) :
    List Char → Except Fault ((String × Json) × List Char)
  | '"' :: rest =>
    match readString bound rest with
    | .error fault => .error fault
    | .ok (name, rest) =>
      match skipBlanks rest with
      | ':' :: rest =>
        match item rest with
        | .error fault => .error fault
        | .ok (value, rest) => .ok ((name, value), rest)
      | rest => .error (faultAt rest)
  | input => .error (faultAt input)

/-- The members after the first, up to the closing brace. -/
def readMoreMembers (item : List Char → Except Fault (Json × List Char)) :
    Nat → List Char → Except Fault (List (String × Json) × List Char)
  | 0, _ => .error .truncated
  | bound + 1, input =>
    match skipBlanks input with
    | '}' :: rest => .ok ([], rest)
    | ',' :: rest =>
      match readMember item (bound + 1) (skipBlanks rest) with
      | .error fault => .error fault
      | .ok (member, rest) =>
        match readMoreMembers item bound rest with
        | .error fault => .error fault
        | .ok (members, rest) => .ok (member :: members, rest)
    | rest => .error (faultAt rest)

/-- The members of an object whose opening brace has been read. -/
def readMembers (item : List Char → Except Fault (Json × List Char)) (bound : Nat)
    (input : List Char) : Except Fault (List (String × Json) × List Char) :=
  match skipBlanks input with
  | '}' :: rest => .ok ([], rest)
  | rest =>
    match readMember item bound rest with
    | .error fault => .error fault
    | .ok (member, rest) =>
      match readMoreMembers item bound rest with
      | .error fault => .error fault
      | .ok (members, rest) => .ok (member :: members, rest)

/-! ### Values -/

/-- A word that stands for a value. -/
def readConstant (word : List Char) (value : Json) (input : List Char) :
    Except Fault (Json × List Char) :=
  match readWord word input with
  | .error fault => .error fault
  | .ok rest => .ok (value, rest)

/-- One value from the front of a text, with at most `nesting` arrays and objects open in it. -/
def readValue (bound nesting : Nat) (input : List Char) : Except Fault (Json × List Char) :=
  match skipBlanks input with
  | [] => .error .truncated
  | 'n' :: rest => readConstant ['u', 'l', 'l'] null rest
  | 't' :: rest => readConstant ['r', 'u', 'e'] (bool true) rest
  | 'f' :: rest => readConstant ['a', 'l', 's', 'e'] (bool false) rest
  | '-' :: rest => readUnsigned true rest
  | '"' :: rest =>
    match readString bound rest with
    | .error fault => .error fault
    | .ok (text, rest) => .ok (string text, rest)
  | '[' :: rest =>
    match nesting with
    | 0 => .error .malformed
    | nesting + 1 =>
      match readItems (readValue bound nesting) bound rest with
      | .error fault => .error fault
      | .ok (items, rest) => .ok (array items, rest)
  | '{' :: rest =>
    match nesting with
    | 0 => .error .malformed
    | nesting + 1 =>
      match readMembers (readValue bound nesting) bound rest with
      | .error fault => .error fault
      | .ok (members, rest) => .ok (object members, rest)
  | c :: rest => if c.isDigit then readUnsigned false (c :: rest) else .error .malformed

/-- The value at the front of a text, with what follows it. -/
def readFront (nesting : Nat) (text : String) : Except Fault (Json × List Char) :=
  let input := text.toList
  readValue (input.length + 1) nesting input

/-- Only blanks may follow the value of a text. -/
def isFinished (rest : List Char) : Bool :=
  (skipBlanks rest).isEmpty

end FieldFlow.Json
