/-!
# Writing TOML

## Main Definitions

* `Toml.writeString`: a string in the plainest form that can hold it

## Design Notes

The forms are tried in a fixed order: between double quotes if nothing needs an escape, between
single quotes, between three double quotes, between three single quotes, and last with escapes.
Three quotes are followed by a line break if the string has one; the reader drops it.
-/

namespace FieldFlow.Toml

/-- A control character other than a tab or a line feed, which only an escape can stand for. -/
def needsEscape (c : Char) : Bool :=
  (c.toNat < 0x20 && c != '\t' && c != '\n') || c.toNat == 0x7F

/-- The length of the longest run of a character, where `run` of them have just been seen and
`longest` is the longest run so far. -/
def longestRunFrom (c : Char) (run longest : Nat) : List Char → Nat
  | [] => max run longest
  | d :: rest =>
    if d = c then longestRunFrom c (run + 1) longest rest
    else longestRunFrom c 0 (max run longest) rest

/-- The length of the longest run of a character. -/
def longestRun (c : Char) (text : List Char) : Nat :=
  longestRunFrom c 0 0 text

/-- Four upper-case hexadecimal digits. -/
def hexFour (n : Nat) : List Char :=
  [n / 4096, n / 256, n / 16, n].map fun digit => (Nat.digitChar (digit % 16)).toUpper

/-- The characters of a string between double quotes. Up to `quotes` quotes may stand in a row;
the next one is escaped. -/
def escapeFrom (multiline : Bool) (quotes : Nat) (run : Nat) : List Char → List Char
  | [] => []
  | c :: rest =>
    if c = '"' then
      if run < quotes then '"' :: escapeFrom multiline quotes (run + 1) rest
      else '\\' :: '"' :: escapeFrom multiline quotes 0 rest
    else
      let shown :=
        match c with
        | '\x08' => ['\\', 'b']
        | '\t' => ['\\', 't']
        | '\n' => if multiline then ['\n'] else ['\\', 'n']
        | '\x0c' => ['\\', 'f']
        | '\r' => ['\\', 'r']
        | '\\' => ['\\', '\\']
        | _ => if needsEscape c then ['\\', 'u'] ++ hexFour c.toNat else [c]
      shown ++ escapeFrom multiline quotes 0 rest

/-- A string on one line between double quotes. -/
def writeBasic (text : List Char) : List Char :=
  '"' :: escapeFrom false 0 0 text ++ ['"']

/-- A string between three quotes at each end. -/
def writeMultiline (quote : Char) (hasBreak : Bool) (content : List Char) : List Char :=
  [quote, quote, quote] ++ (if hasBreak then ['\n'] else []) ++ content ++ [quote, quote, quote]

/-- A string in the plainest form that can hold it. -/
def writeString (text : String) : String :=
  let chars := text.toList
  let hasBreak := chars.contains '\n'
  let hasBackslash := chars.contains '\\'
  let singles := longestRun '\'' chars
  let doubles := longestRun '"' chars
  let escaped := chars.any needsEscape
  String.ofList <|
    if !escaped && !hasBackslash && doubles = 0 && !hasBreak then writeBasic chars
    else if !escaped && singles = 0 && !hasBreak then '\'' :: chars ++ ['\'']
    else if !escaped && !hasBackslash && doubles ≤ 2 then
      writeMultiline '"' hasBreak (escapeFrom true 2 0 chars)
    else if !escaped && singles ≤ 2 then writeMultiline '\'' hasBreak chars
    else if hasBreak then writeMultiline '"' hasBreak (escapeFrom true 2 0 chars)
    else writeBasic chars

end FieldFlow.Toml
