import FieldFlow.Text.Printable

/-!
# Quoted text

The form in which messages and listings show a string or a single character: between quotes, with
escapes for whatever would be invisible or misread.

## Main Definitions

* `Text.escape`: the escaped form of one character
* `Text.quote`: a string between double quotes
* `Text.quoteChar`: a character between single quotes

## Design Notes

Only the quote that delimits the text is escaped. A character without a short escape that cannot
be shown, or that would attach to its left neighbour, is written by its number in hexadecimal.
-/

namespace FieldFlow.Text

/-- Lower-case hexadecimal digits of a number, without leading zeros. -/
def hex (n : Nat) : List Char :=
  Nat.toDigits 16 n

/-- One character as it stands between two copies of `delimiter`. -/
def escape (delimiter c : Char) : List Char :=
  match c with
  | '\x00' => ['\\', '0']
  | '\t' => ['\\', 't']
  | '\r' => ['\\', 'r']
  | '\n' => ['\\', 'n']
  | '\\' => ['\\', '\\']
  | _ =>
    if c = delimiter then ['\\', c]
    else if extendsGrapheme c || !isPrintable c then
      ['\\', 'u', '{'] ++ hex c.toNat ++ ['}']
    else [c]

/-- A string between double quotes. -/
def quote (text : String) : String :=
  String.ofList ('"' :: text.toList.flatMap (escape '"') ++ ['"'])

/-- A character between single quotes. -/
def quoteChar (c : Char) : String :=
  String.ofList ('\'' :: escape '\'' c ++ ['\''])

end FieldFlow.Text
