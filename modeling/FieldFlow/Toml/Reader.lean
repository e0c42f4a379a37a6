import FieldFlow.Decimal.Binary
import FieldFlow.Toml.Basic

/-!
# Reading TOML

## Main Definitions

* `Toml.ofText?`: the entries of a document

## Design Notes

A reader takes the characters that are left and returns what it has read with the rest, or fails.
Nesting is limited, and the recursion into arrays and inline tables runs on what is left of that
limit. The number of characters left bounds every loop; each turn of a loop takes at least one of
them.
-/

namespace FieldFlow.Toml

/-- Arrays and inline tables that may be open at the same time, and parts of a dotted key. -/
def nestingLimit : Nat := 79

/-! ### Characters -/

/-- Blanks within a line. -/
def isBlank (c : Char) : Bool :=
  c = ' ' || c = '\t'

/-- Characters that may stand in comments: all but controls. -/
def isShown (c : Char) : Bool :=
  c = '\t' || (0x20 ≤ c.toNat && c.toNat ≠ 0x7F)

/-- Characters of keys without quotes. -/
def isBare (c : Char) : Bool :=
  c.isAlphanum || c = '_' || c = '-'

/-- What is left after the blanks at the front. -/
def skipBlanks (input : List Char) : List Char :=
  input.dropWhile isBlank

/-- A given character. -/
def readChar (c : Char) : List Char → Option (List Char)
  | [] => none
  | d :: rest => if c = d then some rest else none

/-- A given word. -/
def readWord : List Char → List Char → Option (List Char)
  | [], rest => some rest
  | c :: word, input => do
    let rest ← readChar c input
    readWord word rest

/-- A line break. -/
def readBreak : List Char → Option (List Char)
  | '\n' :: rest => some rest
  | '\r' :: '\n' :: rest => some rest
  | _ => none

/-- What is left after a comment, if there is one. -/
def skipComment : List Char → List Char
  | '#' :: rest => rest.dropWhile isShown
  | input => input

/-- The end of a line or of the text, after blanks and a comment. -/
def readLineEnd (input : List Char) : Option (List Char) :=
  match skipComment (skipBlanks input) with
  | [] => some []
  | rest => readBreak rest

/-- What is left after blanks, comments and line breaks. -/
def skipLines : Nat → List Char → List Char
  | 0, input => input
  | bound + 1, input =>
    let rest := skipComment (skipBlanks input)
    match readBreak rest with
    | some rest => skipLines bound rest
    | none => if rest.length < (skipBlanks input).length then input else rest

/-! ### Strings -/

/-- The value of hexadecimal digits of either case. -/
def hexValue? (digits : List Char) : Option Nat :=
  digits.foldlM (fun n c =>
    if c.isDigit then some (16 * n + (c.toNat - '0'.toNat))
    else if 'a' ≤ c ∧ c ≤ 'f' then some (16 * n + (c.toNat - 'a'.toNat + 10))
    else if 'A' ≤ c ∧ c ≤ 'F' then some (16 * n + (c.toNat - 'A'.toNat + 10))
    else none) 0

/-- The character of an escape by number, with a given count of digits. -/
def readUnicode (count : Nat) (input : List Char) : Option (Char × List Char) :=
  let digits := input.take count
  if digits.length = count then do
    let n ← hexValue? digits
    if n.isValidChar then some (Char.ofNat n, input.drop count) else none
  else none

/-- The character of an escape, after the backslash. -/
def readEscape : List Char → Option (Char × List Char)
  | 'b' :: rest => some ('\x08', rest)
  | 't' :: rest => some ('\t', rest)
  | 'n' :: rest => some ('\n', rest)
  | 'f' :: rest => some ('\x0c', rest)
  | 'r' :: rest => some ('\r', rest)
  | '"' :: rest => some ('"', rest)
  | '\\' :: rest => some ('\\', rest)
  | 'u' :: rest => readUnicode 4 rest
  | 'U' :: rest => readUnicode 8 rest
  | _ => none

/-- What is left after a backslash at the end of a line: blanks and line breaks up to the next
other character. -/
def skipFold (input : List Char) : Option (List Char) := do
  let rest ← readBreak (skipBlanks input)
  let rec loop : Nat → List Char → List Char
    | 0, input => input
    | bound + 1, input =>
      match readBreak (skipBlanks input) with
      | some rest => loop bound rest
      | none => skipBlanks input
  some (loop rest.length rest)

/-- How a string is delimited. -/
structure Quoting where
  /-- The quote that delimits the string. -/
  quote : Char
  /-- Whether there are three quotes at each end, and line breaks are allowed. -/
  multiline : Bool

/-- Double quotes allow escapes, single quotes do not. -/
def Quoting.escapes (quoting : Quoting) : Bool :=
  quoting.quote = '"'

/-- The closing quotes of a string over several lines: three of them, after at most two that
belong to the string. -/
def readClosing (quote : Char) (input : List Char) : Option (List Char × List Char) :=
  let quotes := (input.takeWhile (· = quote)).length
  if quotes < 3 then none
  else
    let inside := min (quotes - 3) 2
    some (List.replicate inside quote, input.drop (inside + 3))

/-- The characters of a string up to its closing quotes, in reverse, added to those read before.
The bound is the number of characters left. -/
def readStringFrom (quoting : Quoting) (read : List Char) :
    Nat → List Char → Option (List Char × List Char)
  | 0, _ => none
  | _, [] => none
  | bound + 1, c :: rest =>
    if c = quoting.quote then
      if quoting.multiline then
        match readClosing quoting.quote (c :: rest) with
        | some (inside, rest) => some (inside ++ read, rest)
        | none => readStringFrom quoting (c :: read) bound rest
      else some (read, rest)
    else if c = '\\' && quoting.escapes then
      match readEscape rest with
      | some (c, rest) => readStringFrom quoting (c :: read) bound rest
      | none =>
        if quoting.multiline then do
          let rest ← skipFold rest
          readStringFrom quoting read bound rest
        else none
    else if isShown c then readStringFrom quoting (c :: read) bound rest
    else if quoting.multiline then do
      let rest ← readBreak (c :: rest)
      readStringFrom quoting ('\n' :: read) bound rest
    else none

/-- A string whose opening quotes have been read. -/
def readStringBody (quoting : Quoting) (input : List Char) : Option (String × List Char) := do
  let (read, rest) ← readStringFrom quoting [] (input.length + 1) input
  some (String.ofList read.reverse, rest)

/-- A string within one line. -/
def readLineString (quote : Char) (input : List Char) : Option (String × List Char) := do
  let rest ← readChar quote input
  readStringBody ⟨quote, false⟩ rest

/-- A string of either form. A line break right after three opening quotes is left out. -/
def readString (quote : Char) (input : List Char) : Option (String × List Char) :=
  match readWord [quote, quote, quote] input with
  | some rest => readStringBody ⟨quote, true⟩ ((readBreak rest).getD rest)
  | none => readLineString quote input

/-! ### Keys -/

/-- One part of a key. -/
def readSimpleKey (input : List Char) : Option (String × List Char) :=
  match input with
  | '"' :: _ => readLineString '"' input
  | '\'' :: _ => readLineString '\'' input
  | _ =>
    match input.takeWhile isBare with
    | [] => none
    | key => some (String.ofList key, input.dropWhile isBare)

/-- The parts of a key from the first on, with blanks around each. -/
def readParts : Nat → List Char → Option (List String × List Char)
  | 0, _ => none
  | bound + 1, input => do
    let (part, rest) ← readSimpleKey (skipBlanks input)
    match skipBlanks rest with
    | '.' :: rest => do
      let (parts, rest) ← readParts bound rest
      some (part :: parts, rest)
    | rest => some ([part], rest)

/-- A key, its last part apart from the path to it. -/
def readKey (input : List Char) : Option ((List String × String) × List Char) := do
  let (parts, rest) ← readParts (input.length + 1) input
  if parts.length ≤ nestingLimit then
    some ((parts.dropLast, parts.getLast?.getD ""), rest)
  else none

/-! ### Numbers -/

/-- Digits of a class, an underscore allowed between any two. -/
def readDigitsFrom (isDigit : Char → Bool) : List Char → Option (List Char × List Char)
  | '_' :: c :: rest =>
    if isDigit c then do
      let (digits, rest) ← readDigitsFrom isDigit rest
      some (c :: digits, rest)
    else none
  | '_' :: [] => none
  | c :: rest =>
    if isDigit c then do
      let (digits, rest) ← readDigitsFrom isDigit rest
      some (c :: digits, rest)
    else some ([], c :: rest)
  | [] => some ([], [])

/-- One or more digits. -/
def readDigits (isDigit : Char → Bool) (input : List Char) : Option (List Char × List Char) :=
  match input with
  | c :: _ => if isDigit c then readDigitsFrom isDigit input else none
  | [] => none

/-- The value of digits in a base. -/
def digitsValue (base : Nat) (digits : List Char) : Nat :=
  digits.foldl (fun n c => base * n + ((hexValue? [c]).getD 0)) 0

/-- An integer of 64 bits. -/
def integerOf? (value : Int) : Option Toml :=
  if Int64.minValue.toInt ≤ value ∧ value ≤ Int64.maxValue.toInt then some (integer value) else none

/-- A number in another base, after its marker. -/
def readInBase (base : Nat) (isDigit : Char → Bool) (input : List Char) :
    Option (Toml × List Char) := do
  let (digits, rest) ← readDigits isDigit input
  let value ← integerOf? (digitsValue base digits)
  some (value, rest)

/-- A sign, if there is one. -/
def readSign : List Char → Bool × List Char
  | '-' :: rest => (true, rest)
  | '+' :: rest => (false, rest)
  | input => (false, input)

/-- The digits before a point. A number that begins with zero has no other digit there. -/
def readWhole (input : List Char) : Option (List Char × List Char) :=
  match input with
  | '0' :: rest => some (['0'], rest)
  | _ => readDigits Char.isDigit input

/-- The digits after a point. -/
def readFraction : List Char → Option (Option (List Char) × List Char)
  | '.' :: rest => do
    let (digits, rest) ← readDigits Char.isDigit rest
    some (some digits, rest)
  | input => some (none, input)

/-- The exponent. -/
def readExponent : List Char → Option (Option Int × List Char)
  | c :: rest =>
    if c = 'e' ∨ c = 'E' then do
      let (negative, rest) := readSign rest
      let (digits, rest) ← readDigits Char.isDigit rest
      let value : Int := digitsValue 10 digits
      some (some (if negative then -value else value), rest)
    else some (none, c :: rest)
  | [] => some (none, [])

/-- A decimal number. A positive number with a fraction or an exponent may not be too large for
the 64-bit format. -/
def readDecimal (input : List Char) : Option (Toml × List Char) := do
  let (negative, rest) := readSign input
  match readWord ['i', 'n', 'f'] rest, readWord ['n', 'a', 'n'] rest with
  | some rest, _ => some (float, rest)
  | _, some rest => some (float, rest)
  | none, none => do
    let (whole, rest) ← readWhole rest
    let (fraction, rest) ← readFraction rest
    let (exponent, rest) ← readExponent rest
    match fraction, exponent with
    | none, none => do
      let value : Int := digitsValue 10 whole
      let value ← integerOf? (if negative then -value else value)
      some (value, rest)
    | _, _ =>
      let fraction := fraction.getD []
      let value := Double.ofDecimal false (digitsValue 10 (whole ++ fraction))
        (exponent.getD 0 - fraction.length)
      if negative || value.isFinite then some (float, rest) else none

/-! ### Dates and times -/

/-- A number of exactly the given count of digits, within bounds. -/
def readField (count low high : Nat) (input : List Char) : Option (Nat × List Char) :=
  let digits := input.take count
  if digits.length = count ∧ digits.all Char.isDigit then
    let value := digitsValue 10 digits
    if low ≤ value ∧ value ≤ high then some (value, input.drop count) else none
  else none

/-- The number of days of a month. -/
def daysIn (year month : Nat) : Nat :=
  if month = 2 then
    if year % 4 = 0 ∧ (year % 100 ≠ 0 ∨ year % 400 = 0) then 29 else 28
  else if month = 4 ∨ month = 6 ∨ month = 9 ∨ month = 11 then 30
  else 31

/-- A date. -/
def readDate (input : List Char) : Option (List Char) := do
  let (year, rest) ← readField 4 0 9999 input
  let rest ← readChar '-' rest
  let (month, rest) ← readField 2 1 12 rest
  let rest ← readChar '-' rest
  let (_, rest) ← readField 2 1 (daysIn year month) rest
  some rest

/-- A fraction of a second, if there is one. -/
def readSecondFraction : List Char → Option (List Char)
  | '.' :: c :: rest =>
    if c.isDigit then some (rest.dropWhile Char.isDigit) else some ('.' :: c :: rest)
  | input => some input

/-- A time of day. A minute may have a leap second. -/
def readTime (input : List Char) : Option (List Char) := do
  let (_, rest) ← readField 2 0 23 input
  let rest ← readChar ':' rest
  let (_, rest) ← readField 2 0 59 rest
  let rest ← readChar ':' rest
  let (_, rest) ← readField 2 0 60 rest
  readSecondFraction rest

/-- An offset from universal time, if there is one. -/
def readOffset : List Char → Option (List Char)
  | [] => some []
  | c :: rest =>
    if c = 'Z' ∨ c = 'z' then some rest
    else if c = '+' ∨ c = '-' then do
      let (_, rest) ← readField 2 0 23 rest
      let rest ← readChar ':' rest
      let (_, rest) ← readField 2 0 59 rest
      some rest
    else some (c :: rest)

/-- Whether a time begins here: two digits of an hour and a colon. -/
def isTimeAhead (input : List Char) : Bool :=
  match readField 2 0 23 input with
  | some (_, ':' :: _) => true
  | _ => false

/-- Whether a date begins here: four digits and a dash. -/
def isDateAhead (input : List Char) : Bool :=
  match readField 4 0 9999 input with
  | some (_, '-' :: _) => true
  | _ => false

/-- A date, with a time and an offset if these follow. -/
def readDateTime (input : List Char) : Option (List Char) := do
  let rest ← readDate input
  match rest with
  | c :: after =>
    if (c = 'T' ∨ c = 't' ∨ c = ' ') ∧ isTimeAhead after then do
      let rest ← readTime after
      readOffset rest
    else some rest
  | [] => some []

/-- A number, a date or a time. -/
def readNumeric (input : List Char) : Option (Toml × List Char) :=
  if isDateAhead input then (readDateTime input).map (moment, ·)
  else if isTimeAhead input then (readTime input).map (moment, ·)
  else
    match input with
    | '0' :: 'x' :: rest => readInBase 16 (fun c => (hexValue? [c]).isSome) rest
    | '0' :: 'o' :: rest => readInBase 8 (fun c => '0' ≤ c && c ≤ '7') rest
    | '0' :: 'b' :: rest => readInBase 2 (fun c => c = '0' || c = '1') rest
    | _ => readDecimal input

/-! ### Arrays and inline tables -/

/-- The items of an array up to the closing bracket, with a comma after each but perhaps the
last. -/
def readItems (item : List Char → Option (Toml × List Char)) :
    Nat → List Char → Option (List Toml × List Char)
  | 0, _ => none
  | bound + 1, input =>
    match skipLines (input.length + 1) input with
    | ']' :: rest => some ([], rest)
    | rest => do
      let (value, rest) ← item rest
      match skipLines (rest.length + 1) rest with
      | ']' :: rest => some ([value], rest)
      | ',' :: rest => do
        let (values, rest) ← readItems item bound rest
        some (value :: values, rest)
      | _ => none

/-- A key with its value. -/
def readPair (item : List Char → Option (Toml × List Char)) (input : List Char) :
    Option ((List String × String × Toml) × List Char) := do
  let ((path, key), rest) ← readKey input
  let rest ← readChar '=' rest
  let (value, rest) ← item (skipBlanks rest)
  some ((path, key, value), rest)

/-- The pairs of an inline table up to the closing brace, with a comma between any two. -/
def readPairs (item : List Char → Option (Toml × List Char)) :
    Nat → List Char → Option (List (List String × String × Toml) × List Char)
  | 0, _ => none
  | bound + 1, input => do
    let (pair, rest) ← readPair item input
    match skipBlanks rest with
    | '}' :: rest => some ([pair], rest)
    | ',' :: rest => do
      let (pairs, rest) ← readPairs item bound rest
      some (pair :: pairs, rest)
    | _ => none

/-- An inline table whose opening brace has been read. -/
def readInlineTable (item : List Char → Option (Toml × List Char)) (input : List Char) :
    Option (Toml × List Char) :=
  match skipBlanks input with
  | '}' :: rest => some (table .closed [], rest)
  | _ => do
    let (pairs, rest) ← readPairs item (input.length + 1) input
    let entries ← Entries.insertAll? [] pairs
    some (table .closed entries, rest)

/-- One value, with at most `nesting` arrays and inline tables open in it. -/
def readValue (nesting : Nat) (input : List Char) : Option (Toml × List Char) :=
  match input with
  | [] => none
  | '"' :: _ => (readString '"' input).map fun (text, rest) => (string text, rest)
  | '\'' :: _ => (readString '\'' input).map fun (text, rest) => (string text, rest)
  | '[' :: rest =>
    match nesting with
    | 0 => none
    | nesting + 1 =>
      (readItems (readValue nesting) (rest.length + 1) rest).map fun (items, rest) =>
        (array items, rest)
  | '{' :: rest =>
    match nesting with
    | 0 => none
    | nesting + 1 => readInlineTable (readValue nesting) rest
  | 't' :: _ => (readWord ['t', 'r', 'u', 'e'] input).map (boolean true, ·)
  | 'f' :: _ => (readWord ['f', 'a', 'l', 's', 'e'] input).map (boolean false, ·)
  | _ => readNumeric input

/-! ### Documents -/

/-- One line of a document. -/
inductive Line where
  | blank
  | pair (path : List String) (key : String) (value : Toml)
  | header (repeated : Bool) (path : List String) (key : String)

/-- A header in single or double brackets. -/
def readHeader (input : List Char) : Option (Line × List Char) :=
  match readWord ['[', '['] input with
  | some rest => do
    let ((path, key), rest) ← readKey rest
    let rest ← readWord [']', ']'] rest
    some (.header true path key, rest)
  | none => do
    let rest ← readChar '[' input
    let ((path, key), rest) ← readKey rest
    let rest ← readChar ']' rest
    some (.header false path key, rest)

/-- What a line holds before its end. -/
def readLine (input : List Char) : Option (Line × List Char) :=
  match skipBlanks input with
  | '[' :: rest => readHeader ('[' :: rest)
  | [] => some (.blank, [])
  | c :: rest =>
    if c = '#' ∨ c = '\n' ∨ c = '\r' then some (.blank, c :: rest)
    else do
      let ((path, key, value), rest) ← readPair (readValue nestingLimit) (c :: rest)
      some (.pair path key value, rest)

/-- All lines. -/
def readLines : Nat → List Char → Option (List Line)
  | 0, _ => none
  | _, [] => some []
  | bound + 1, input => do
    let (line, rest) ← readLine input
    let rest ← readLineEnd rest
    let lines ← readLines bound rest
    some (line :: lines)

/-- The key-value lines before the first header, and the sections. -/
def sectionsOf : List Line → List (List String × String × Toml) × List Section
  | [] => ([], [])
  | .blank :: lines => sectionsOf lines
  | .pair path key value :: lines =>
    let (pairs, parts) := sectionsOf lines
    ((path, key, value) :: pairs, parts)
  | .header repeated path key :: lines =>
    let (pairs, parts) := sectionsOf lines
    ([], ⟨path, key, repeated, pairs⟩ :: parts)

/-- The entries of a document. A byte order mark at the front is left out. -/
def ofText? (text : String) : Option Entries := do
  let input :=
    match text.toList with
    | '\uFEFF' :: rest => rest
    | input => input
  let lines ← readLines (input.length + 1) input
  let (pairs, parts) := sectionsOf lines
  document? pairs parts

end FieldFlow.Toml
