import FieldFlow.Decimal.Shortest

/-!
# Layout of decimal numbers

Writing a binary number as decimal text: the shortest digits that read back, laid out with a
decimal point in place or with an exponent.

## Main Definitions

* `Decimal.Layout`: the decisions of a way of writing
* `Decimal.Layout.write`: the text of a bit pattern
* `Single.listed`, `Double.listed`: numbers as a listing shows them
-/

namespace FieldFlow.Decimal

/-- The decisions that the digits leave open. -/
structure Layout where
  /-- Whether a number whose leading digit has this decimal exponent is written without one. -/
  positional : Int → Bool
  /-- Whether whole numbers get a zero after the point. -/
  pointZero : Bool
  /-- Which digits are chosen when two choices are equally near. -/
  tie : Tie
  nan : String
  infinity : String

/-- Decimal digits of a number. -/
def digitsOf (n : Nat) : List Char :=
  Nat.toDigits 10 n

namespace Layout

/-- The digits with the point in place: after them, among them, or before them. -/
def writePositional (layout : Layout) (digits : List Char) (exponent : Int) : List Char :=
  let whole : Int := digits.length + exponent
  if 0 ≤ exponent then
    digits ++ List.replicate exponent.toNat '0' ++ (if layout.pointZero then ['.', '0'] else [])
  else if 0 < whole then
    digits.take whole.toNat ++ '.' :: digits.drop whole.toNat
  else
    '0' :: '.' :: List.replicate (-whole).toNat '0' ++ digits

/-- One digit before the point, and the exponent with its sign. -/
def writeExponent (digits : List Char) (leading : Int) : List Char :=
  let mantissa :=
    match digits with
    | first :: second :: more => first :: '.' :: second :: more
    | _ => digits
  mantissa ++ 'e' :: (if leading < 0 then '-' else '+') :: digitsOf leading.natAbs

/-- The text of a decimal. -/
def writeScientific (layout : Layout) (decimal : Scientific) : List Char :=
  let digits := digitsOf decimal.digits
  let leading : Int := digits.length + decimal.exponent - 1
  if layout.positional leading then layout.writePositional digits decimal.exponent
  else writeExponent digits leading

/-- The text of a bit pattern. A zero keeps its sign; a NaN has none. -/
def write (layout : Layout) (format : Format) (bits : Nat) : List Char :=
  let sign := if format.isNegative bits then ['-'] else []
  match format.decode bits with
  | .nan => layout.nan.toList
  | .infinite => sign ++ layout.infinity.toList
  | .zero => sign ++ (if layout.pointZero then ['0', '.', '0'] else ['0'])
  | .finite value => sign ++ layout.writeScientific (value.shortest layout.tie)

/-- Listings never use an exponent and write whole numbers without a point. -/
def listing : Layout where
  positional _ := true
  pointZero := false
  tie := .up
  nan := "NaN"
  infinity := "inf"

end Layout

end FieldFlow.Decimal

namespace FieldFlow

/-- A number of the 32-bit format as a listing shows it. -/
def Single.listed (x : Single) : String :=
  String.ofList (Decimal.Layout.listing.write Decimal.single x.bits.toNat)

/-- A number of the 64-bit format as a listing shows it. -/
def Double.listed (x : Double) : String :=
  String.ofList (Decimal.Layout.listing.write Decimal.double x.bits.toNat)

end FieldFlow
