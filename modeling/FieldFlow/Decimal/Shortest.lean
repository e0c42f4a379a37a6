import FieldFlow.Decimal.Binary

/-!
# Shortest decimals

The decimal number with the fewest digits among those that read back to a given binary number,
and of these the one nearest to it.

## Main Definitions

* `Decimal.Finite.readsBack`: a decimal lies among the reals that round to the number
* `Decimal.Finite.shortest`: the decimal chosen

## Design Notes

For one digit, two digits, and so on, the two neighbours of the number on the grid of that many
digits are tried; the first grid with a neighbour that reads back is taken, and of two such
neighbours the nearer. Both may be equally near, so the caller names the winner of a tie.
-/

namespace FieldFlow.Decimal

/-- The number `digits * 10 ^ exponent`. -/
structure Scientific where
  digits : Nat
  exponent : Int
  deriving DecidableEq, Repr

/-- Which of two equally near neighbours is taken. -/
inductive Tie where
  | toEven
  | up
  deriving DecidableEq, Repr

/-- Compares `a * 10 ^ i` with `b * 2 ^ j` exactly. -/
def compareScaled (a : Nat) (i : Int) (b : Nat) (j : Int) : Ordering :=
  compare ((a * tenTo i.toNat) <<< (-j).toNat) ((b * tenTo (-i).toNat) <<< j.toNat)

namespace Finite

/-- A decimal reads back to the number if it lies between the midpoints to the two neighbours. A
midpoint itself reads back exactly when the significand is even. -/
def readsBack (value : Finite) (decimal : Scientific) : Bool :=
  let low := if value.narrowBelow then 4 * value.significand - 1 else 4 * value.significand - 2
  let high := 4 * value.significand + 2
  let closed := value.significand % 2 == 0
  let below := compareScaled decimal.digits decimal.exponent low (value.exponent - 2)
  let above := compareScaled decimal.digits decimal.exponent high (value.exponent - 2)
  (below == .gt || (closed && below == .eq)) && (above == .lt || (closed && above == .eq))

/-- The least `k` with the number below `10 ^ k`: an estimate from the binary size, at most one
too small, corrected by an exact comparison. -/
def magnitude (value : Finite) : Int :=
  let binary : Int := value.exponent + value.significand.log2
  let guess := binary * 30103 / 100000
  if compareScaled 1 guess value.significand value.exponent == .gt then guess
  else if compareScaled 1 (guess + 1) value.significand value.exponent == .gt then guess + 1
  else guess + 2

/-- The grid point at or below the number, among the multiples of `10 ^ exponent`. -/
def floorAt (value : Finite) (exponent : Int) : Nat :=
  ((value.significand * tenTo (-exponent).toNat) <<< value.exponent.toNat) /
    (tenTo exponent.toNat <<< (-value.exponent).toNat)

/-- The neighbour of the number on one grid that reads back, the nearer if both do. -/
def onGrid? (value : Finite) (tie : Tie) (exponent : Int) : Option Scientific :=
  let lower : Scientific := ⟨value.floorAt exponent, exponent⟩
  let upper : Scientific := ⟨lower.digits + 1, exponent⟩
  match value.readsBack lower, value.readsBack upper with
  | false, false => none
  | true, false => some lower
  | false, true => some upper
  | true, true =>
    match compareScaled (2 * lower.digits + 1) exponent (2 * value.significand) value.exponent with
    | .gt => some lower
    | .lt => some upper
    | .eq =>
      match tie with
      | .up => some upper
      | .toEven => some (if lower.digits % 2 = 0 then lower else upper)

/-- The first grid with a hit, from the coarsest on; with none left, the exact number. -/
def search (value : Finite) (tie : Tie) (exponent : Int) : Nat → Scientific
  | 0 => ⟨(value.significand * Nat.pow 5 (-value.exponent).toNat) <<< value.exponent.toNat,
      min value.exponent 0⟩
  | grids + 1 =>
    match value.onGrid? tie exponent with
    | some decimal => decimal
    | none => search value tie (exponent - 1) grids

end Finite

/-- Moves trailing zeros of the digits into the exponent. Each step divides the digits by ten, so
there are no more steps than digits. -/
def Scientific.trim (decimal : Scientific) : Scientific :=
  if h : decimal.digits % 10 = 0 ∧ decimal.digits ≠ 0 then
    trim ⟨decimal.digits / 10, decimal.exponent + 1⟩
  else decimal
  termination_by decimal.digits
  decreasing_by omega

/-- The shortest decimal that reads back. Seventeen digits are enough for either format. -/
def Finite.shortest (value : Finite) (tie : Tie) : Scientific :=
  (value.search tie (value.magnitude - 1) 17).trim

end FieldFlow.Decimal
