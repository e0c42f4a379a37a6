/-!
# Blank text

The characters with the property White_Space, and the test for text that holds nothing else.

## Main Definitions

* `Text.isSpace`: the 25 characters of the property
* `Text.isBlank`: text that is empty once such characters are dropped
* `Text.strip`: text without such characters at either end
-/

namespace FieldFlow.Text

/-- The characters with the property White_Space. -/
def isSpace (c : Char) : Bool :=
  let n := c.toNat
  (9 ≤ n && n ≤ 13) || n == 0x20 || n == 0x85 || n == 0xA0 || n == 0x1680 ||
    (0x2000 ≤ n && n ≤ 0x200A) || n == 0x2028 || n == 0x2029 || n == 0x202F || n == 0x205F ||
    n == 0x3000

/-- Blank text holds white space only, or nothing. -/
def isBlank (text : String) : Bool :=
  text.toList.all isSpace

/-- The text without the white space at its two ends. -/
def strip (text : String) : String :=
  String.ofList ((text.toList.dropWhile isSpace).reverse.dropWhile isSpace).reverse

/-- White space in the narrow sense is White_Space too. -/
theorem isSpace_of_isWhitespace {c : Char} (h : c.isWhitespace) : isSpace c := by
  simp only [Char.isWhitespace, Bool.or_eq_true, decide_eq_true_eq] at h
  rcases h with ((h | h) | h) | h <;> subst h <;> decide

end FieldFlow.Text
