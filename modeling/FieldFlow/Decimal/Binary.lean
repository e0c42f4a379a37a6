/-!
# Binary floating-point numbers

The two interchange formats of 32 and 64 bits, as bit patterns: what a pattern stands for, and the
pattern nearest to a given number.

## Main Definitions

* `Single`, `Double`: bit patterns of the two formats
* `Decimal.Format`: the parameters of a format
* `Decimal.Format.decode`: what a pattern stands for
* `Decimal.Format.nearest`: the pattern nearest to a quotient, ties to even
* `Decimal.Format.ofDecimal`: the pattern nearest to a decimal number

## Design Notes

All arithmetic is exact, on natural numbers. Two constants are equal when their patterns are, so
the zeros differ and a NaN equals itself.
-/

namespace FieldFlow

/-- A number in the 32-bit format. -/
structure Single where
  bits : UInt32
  deriving DecidableEq, Repr, Inhabited

/-- A number in the 64-bit format. -/
structure Double where
  bits : UInt64
  deriving DecidableEq, Repr, Inhabited

namespace Decimal

/-- A power of ten. Powers of two are written as shifts. -/
def tenTo (exponent : Nat) : Nat :=
  Nat.pow 10 exponent

/-- The widths of the two fields below the sign bit. -/
structure Format where
  fractionBits : Nat
  exponentBits : Nat

/-- The 32-bit format. -/
def single : Format := ⟨23, 8⟩

/-- The 64-bit format. -/
def double : Format := ⟨52, 11⟩

/-- A positive finite number `significand * 2 ^ exponent`. -/
structure Finite where
  significand : Nat
  exponent : Int
  /-- The gap to the number below is half the gap to the number above. -/
  narrowBelow : Bool

/-- What the part of a pattern below its sign stands for. -/
inductive Magnitude where
  | nan
  | infinite
  | zero
  | finite (value : Finite)

namespace Format

/-- The weight of the last significand bit of the smallest numbers, as a power of two. -/
def minExponent (format : Format) : Int :=
  2 - (1 <<< (format.exponentBits - 1) : Nat) - format.fractionBits

/-- The pattern of infinity, which is also the first that no finite number has. -/
def infinityBits (format : Format) : Nat :=
  ((1 <<< format.exponentBits) - 1) <<< format.fractionBits

/-- The number of bits below the sign. -/
def signPosition (format : Format) : Nat :=
  format.fractionBits + format.exponentBits

/-- Whether the sign bit of a pattern is set. -/
def isNegative (format : Format) (bits : Nat) : Bool :=
  bits.testBit format.signPosition

/-- What a pattern stands for, its sign left aside. -/
def decode (format : Format) (bits : Nat) : Magnitude :=
  let scale := 1 <<< format.fractionBits
  let fraction := bits % scale
  let field := bits / scale % (1 <<< format.exponentBits)
  if field = (1 <<< format.exponentBits) - 1 then
    if fraction = 0 then .infinite else .nan
  else if field = 0 then
    if fraction = 0 then .zero else .finite ⟨fraction, format.minExponent, false⟩
  else
    .finite ⟨scale + fraction, format.minExponent + (field - 1 : Nat), fraction = 0 && 1 < field⟩

end Format

/-- The quotient rounded to the nearest whole number, a half to the even neighbour. -/
def roundQuotient (num den : Nat) : Nat :=
  let quotient := num / den
  match compare (2 * (num % den)) den with
  | .lt => quotient
  | .gt => quotient + 1
  | .eq => quotient + quotient % 2

/-- The quotient `num / den` divided by `2 ^ exponent` and rounded. -/
def roundScaled (num den : Nat) (exponent : Int) : Nat :=
  roundQuotient (num <<< (-exponent).toNat) (den <<< exponent.toNat)

namespace Format

/-- The exponent with which a positive quotient fills the significand: one that is too large by a
step leaves the leading bit unset, so it is corrected by an exact comparison. -/
def scaleOf (format : Format) (num den : Nat) : Int :=
  let guess : Int := (num.log2 : Int) - den.log2 - format.fractionBits
  let fits := den <<< (guess + format.fractionBits).toNat ≤
    num <<< (-(guess + format.fractionBits)).toNat
  max (if fits then guess else guess - 1) format.minExponent

/-- The magnitude bits nearest to a quotient, ties to even, infinity from halfway above the
largest finite number. The significand is added with its leading bit, so the smallest numbers,
which lack that bit, get the exponent field zero, and a significand that rounds up to the next
power of two carries into the next exponent. -/
def nearest (format : Format) (num den : Nat) : Nat :=
  if num = 0 then 0
  else
    let exponent := format.scaleOf num den
    let significand := roundScaled num den exponent
    let steps := (exponent - format.minExponent).toNat
    min ((steps <<< format.fractionBits) + significand) format.infinityBits

/-- The magnitude bits nearest to `digits * 10 ^ exponent`. Numbers far outside the range of every
format are settled by their size alone. -/
def ofDecimal (format : Format) (digits : Nat) (exponent : Int) : Nat :=
  let size : Int := exponent + (digits.log2 * 30103 / 100000 : Nat)
  if digits = 0 then 0
  else if size < -400 then 0
  else if 400 < size then format.infinityBits
  else format.nearest (digits * tenTo exponent.toNat) (tenTo (-exponent).toNat)

/-- Magnitude bits with a sign. -/
def withSign (format : Format) (negative : Bool) (bits : Nat) : Nat :=
  if negative then bits + (1 <<< format.signPosition) else bits

end Format

end Decimal

/-! ### Numbers of the two formats -/

namespace Double

/-- The number nearest to a signed decimal. -/
def ofDecimal (negative : Bool) (digits : Nat) (exponent : Int) : Double :=
  ⟨.ofNat (Decimal.double.withSign negative (Decimal.double.ofDecimal digits exponent))⟩

/-- The number nearest to an integer. -/
def ofInt (n : Int) : Double :=
  ⟨.ofNat (Decimal.double.withSign (n < 0) (Decimal.double.nearest n.natAbs 1))⟩

/-- Neither NaN nor an infinity. -/
def isFinite (x : Double) : Bool :=
  match Decimal.double.decode x.bits.toNat with
  | .nan | .infinite => false
  | _ => true

end Double

namespace Single

/-- The number nearest to an integer. -/
def ofInt (n : Int) : Single :=
  ⟨.ofNat (Decimal.single.withSign (n < 0) (Decimal.single.nearest n.natAbs 1))⟩

/-- The number nearest to one of the wider format; too large a number becomes infinite. -/
def ofDouble (x : Double) : Single :=
  let bits := x.bits.toNat
  let magnitude :=
    match Decimal.double.decode bits with
    | .nan => Decimal.single.infinityBits + (1 <<< (Decimal.single.fractionBits - 1))
    | .infinite => Decimal.single.infinityBits
    | .zero => 0
    | .finite value =>
      Decimal.single.nearest (value.significand <<< value.exponent.toNat)
        (1 <<< (-value.exponent).toNat)
  ⟨.ofNat (Decimal.single.withSign (Decimal.double.isNegative bits) magnitude)⟩

end Single

end FieldFlow
