import FieldFlow.Decimal.Shortest
import Mathlib.Algebra.Order.Field.Power
import Mathlib.Algebra.Order.Field.Rat
import Mathlib.Tactic.Linarith
import Mathlib.Tactic.NormNum
import Mathlib.Tactic.Positivity
import Mathlib.Tactic.Ring

/-!
# The range of decimals

The decimal that is written for a finite number is not too large to be read: rounding it to the
64-bit format yields a finite number again.

## Main Definitions

* `Decimal.Scientific.value`: the rational number that a decimal stands for
* `Decimal.roundingLimit`: the least number that rounds to infinity in the 64-bit format
* `Decimal.Scientific.InRange`: a decimal with a value below the limit
* `Decimal.Finite.Fits`: a number whose parts are in the range of the 64-bit format

## Main Statements

* `Decimal.Finite.Fits.inRange_shortest`: the shortest decimal of a finite number is in range
* `Decimal.Format.scaleOf_spec`: the exponent with which a quotient fills the significand
* `Decimal.double_nearest_lt`: what is below the limit rounds to a finite number
* `Double.isFinite_ofDecimal`: a decimal in range is read as a finite number

## Design Notes

The model computes with shifts and with powers of ten on either side of a comparison. Each of these
comparisons is translated once into one of rational numbers.
-/

namespace FieldFlow

namespace Decimal

/-! ### Scaled comparisons -/

/-- Either half of an exponent is a natural number. -/
theorem zpow_mul_pow_neg {base : ℚ} (hbase : base ≠ 0) (exponent : ℤ) :
    base ^ exponent * base ^ (-exponent).toNat = base ^ exponent.toNat := by
  rw [← zpow_natCast, ← zpow_natCast, ← zpow_add₀ hbase]
  congr 1
  omega

/-- Two quotients of powers, compared without division. -/
theorem scaled_compare (a b : ℕ) (i j : ℤ) :
    ∃ factor : ℚ, 0 < factor ∧
      (((a * tenTo i.toNat) <<< (-j).toNat : ℕ) : ℚ) = a * 10 ^ i * factor ∧
      (((b * tenTo (-i).toNat) <<< j.toNat : ℕ) : ℚ) = b * 2 ^ j * factor := by
  refine ⟨10 ^ (-i).toNat * 2 ^ (-j).toNat, by positivity, ?_, ?_⟩
  · have hten := zpow_mul_pow_neg (by norm_num : (10 : ℚ) ≠ 0) i
    rw [Nat.shiftLeft_eq, tenTo]
    push_cast
    rw [Nat.pow_eq, Nat.cast_pow, Nat.cast_ofNat, ← hten]
    ring
  · have htwo := zpow_mul_pow_neg (by norm_num : (2 : ℚ) ≠ 0) j
    rw [Nat.shiftLeft_eq, tenTo]
    push_cast
    rw [Nat.pow_eq, Nat.cast_pow, Nat.cast_ofNat, ← htwo]
    ring

variable {a b : ℕ} {i j : ℤ}

theorem compareScaled_eq_lt_iff :
    compareScaled a i b j = .lt ↔ (a * 10 ^ i : ℚ) < b * 2 ^ j := by
  obtain ⟨factor, hpos, ha, hb⟩ := scaled_compare a b i j
  rw [compareScaled, Nat.compare_eq_lt, ← Nat.cast_lt (α := ℚ), ha, hb, mul_lt_mul_iff_left₀ hpos]

theorem compareScaled_eq_gt_iff :
    compareScaled a i b j = .gt ↔ (b * 2 ^ j : ℚ) < a * 10 ^ i := by
  obtain ⟨factor, hpos, ha, hb⟩ := scaled_compare a b i j
  rw [compareScaled, Nat.compare_eq_gt, ← Nat.cast_lt (α := ℚ), ha, hb, mul_lt_mul_iff_left₀ hpos]

theorem compareScaled_eq_eq_iff :
    compareScaled a i b j = .eq ↔ (a * 10 ^ i : ℚ) = b * 2 ^ j := by
  obtain ⟨factor, hpos, ha, hb⟩ := scaled_compare a b i j
  rw [compareScaled, Nat.compare_eq_eq, ← Nat.cast_inj (R := ℚ), ha, hb,
    mul_left_inj' hpos.ne']

/-! ### Decimals in range -/

/-- The rational number that a decimal stands for. -/
def Scientific.value (decimal : Scientific) : ℚ :=
  decimal.digits * 10 ^ decimal.exponent

/-- Halfway between the largest finite number of the 64-bit format and the power of two above it. -/
def roundingLimit : ℚ :=
  (2 ^ 54 - 1) * 2 ^ (970 : ℤ)

/-- A decimal that can be read: its value is positive and below the limit. No decimal that is
written for a number has an exponent below the bound. -/
structure Scientific.InRange (decimal : Scientific) : Prop where
  digits_pos : 0 < decimal.digits
  exponent_ge : -2000 ≤ decimal.exponent
  value_lt : decimal.value < roundingLimit

/-- The parts of a number are in the range of the 64-bit format. -/
structure Finite.Fits (value : Finite) : Prop where
  significand_pos : 0 < value.significand
  significand_lt : value.significand < 2 ^ 53
  exponent_ge : -1074 ≤ value.exponent
  exponent_le : value.exponent ≤ 971

variable {decimal : Scientific} {value : Finite} {exponent : ℤ} {quarters grids : ℕ}

/-- A number of quarters of the last place is at most the limit. -/
theorem quarters_le_limit (hquarters : quarters + 2 ≤ 2 ^ 55) (hexponent : exponent ≤ 971) :
    (quarters * 2 ^ (exponent - 2) : ℚ) ≤ roundingLimit := by
  have hplace : (2 : ℚ) ^ (exponent - 2) ≤ 2 ^ (969 : ℤ) :=
    zpow_le_zpow_right₀ one_le_two (by omega)
  have hcount : (quarters : ℚ) ≤ 2 ^ 55 - 2 := by
    have hcast : ((quarters + 2 : ℕ) : ℚ) ≤ ((2 ^ 55 : ℕ) : ℚ) := Nat.cast_le.2 hquarters
    push_cast at hcast
    linarith
  have htwo : (2 : ℚ) ^ (970 : ℤ) = 2 * 2 ^ (969 : ℤ) := by
    rw [← zpow_one_add₀ two_ne_zero]
    norm_num
  calc (quarters * 2 ^ (exponent - 2) : ℚ)
      ≤ quarters * 2 ^ (969 : ℤ) := mul_le_mul_of_nonneg_left hplace (Nat.cast_nonneg _)
    _ ≤ (2 ^ 55 - 2) * 2 ^ (969 : ℤ) :=
      mul_le_mul_of_nonneg_right hcount (zpow_nonneg zero_le_two _)
    _ = roundingLimit := by
      rw [roundingLimit, htwo]
      ring

theorem quarters_lt_limit (hquarters : quarters + 3 ≤ 2 ^ 55) (hexponent : exponent ≤ 971) :
    (quarters * 2 ^ (exponent - 2) : ℚ) < roundingLimit := by
  have hplace : (0 : ℚ) < 2 ^ (exponent - 2) := by positivity
  calc (quarters * 2 ^ (exponent - 2) : ℚ)
      < (quarters + 1 : ℕ) * 2 ^ (exponent - 2) := by
        push_cast
        linarith
    _ ≤ roundingLimit := quarters_le_limit (by omega) hexponent

namespace Finite.Fits

/-- A decimal that reads back to a number is positive and below the limit. -/
theorem of_readsBack (h : value.Fits) (hreads : value.readsBack decimal = true) :
    0 < decimal.digits ∧ decimal.value < roundingLimit := by
  have hpos := h.significand_pos
  have hlt := h.significand_lt
  rw [readsBack, Bool.and_eq_true, Bool.or_eq_true, Bool.or_eq_true, Bool.and_eq_true,
    Bool.and_eq_true, beq_iff_eq, beq_iff_eq, beq_iff_eq, beq_iff_eq, beq_iff_eq,
    compareScaled_eq_gt_iff, compareScaled_eq_eq_iff, compareScaled_eq_lt_iff,
    compareScaled_eq_eq_iff] at hreads
  obtain ⟨hbelow, habove⟩ := hreads
  constructor
  · rw [Nat.pos_iff_ne_zero]
    intro hzero
    have hplace : (0 : ℚ) < 2 ^ (value.exponent - 2) := by positivity
    have hlow : ∀ low : ℕ, 0 < low → (0 : ℚ) < low * 2 ^ (value.exponent - 2) :=
      fun low hlow => mul_pos (Nat.cast_pos.2 hlow) hplace
    rw [hzero, Nat.cast_zero, zero_mul] at hbelow
    have hbound := hlow (if value.narrowBelow then 4 * value.significand - 1
      else 4 * value.significand - 2) (by split <;> omega)
    rcases hbelow with hbelow | ⟨-, hbelow⟩
    · exact absurd hbelow hbound.not_gt
    · exact absurd hbelow hbound.ne
  · rcases habove with habove | ⟨heven, habove⟩
    · exact habove.trans_le (quarters_le_limit (by omega) h.exponent_le)
    · -- A midpoint reads back to an even significand only, and the largest one is odd.
      rw [Scientific.value, habove]
      exact quarters_lt_limit (by omega) h.exponent_le

/-- The decimal with the value of the number itself. -/
theorem inRange_exact (h : value.Fits) :
    Scientific.InRange
      ⟨(value.significand * Nat.pow 5 (-value.exponent).toNat) <<< value.exponent.toNat,
        min value.exponent 0⟩ where
  digits_pos := by
    have hfive : 0 < Nat.pow 5 (-value.exponent).toNat := Nat.pow_pos (by decide)
    rw [Nat.shiftLeft_eq]
    exact Nat.mul_pos (Nat.mul_pos h.significand_pos hfive) (Nat.two_pow_pos _)
  exponent_ge := by
    have hexponent := h.exponent_ge
    show -2000 ≤ min value.exponent 0
    omega
  value_lt := by
    have hlt := h.significand_lt
    have hvalue : (((value.significand * Nat.pow 5 (-value.exponent).toNat) <<<
        value.exponent.toNat : ℕ) : ℚ) * 10 ^ (min value.exponent 0) =
          (4 * value.significand : ℕ) * 2 ^ (value.exponent - 2) := by
      have hquarter : (2 : ℚ) ^ value.exponent = 4 * 2 ^ (value.exponent - 2) := by
        rw [zpow_sub₀ two_ne_zero]
        ring
      rw [Nat.shiftLeft_eq]
      push_cast
      rw [Nat.pow_eq, Nat.cast_pow, Nat.cast_ofNat, mul_assoc 4 (value.significand : ℚ),
        mul_left_comm, ← hquarter, mul_assoc, mul_assoc]
      congr 1
      rcases le_or_gt 0 value.exponent with hwhole | hfraction
      · rw [min_eq_right hwhole, Int.toNat_of_nonpos (by omega), pow_zero, zpow_zero, one_mul,
          mul_one, ← zpow_natCast, Int.toNat_of_nonneg hwhole]
      · have hten : (10 : ℚ) ^ value.exponent = 5 ^ value.exponent * 2 ^ value.exponent := by
          rw [← mul_zpow]
          norm_num
        rw [min_eq_left hfraction.le, Int.toNat_of_nonpos hfraction.le, pow_zero, one_mul,
          ← zpow_natCast, Int.toNat_of_nonneg (by omega), hten, ← mul_assoc,
          ← zpow_add₀ (by norm_num), neg_add_cancel, zpow_zero, one_mul]
    rw [Scientific.value, hvalue]
    exact quarters_lt_limit (by omega) h.exponent_le

end Finite.Fits

/-! ### The shortest decimal -/

/-- What is found on a grid is on that grid and reads back. -/
theorem Finite.onGrid?_eq_some {tie : Tie} (h : value.onGrid? tie exponent = some decimal) :
    decimal.exponent = exponent ∧ value.readsBack decimal = true := by
  unfold onGrid? at h
  dsimp only at h
  cases hlower : value.readsBack ⟨value.floorAt exponent, exponent⟩ with
  | false =>
    cases hupper : value.readsBack ⟨value.floorAt exponent + 1, exponent⟩ with
    | false =>
      rw [hlower, hupper] at h
      cases h
    | true =>
      rw [hlower, hupper] at h
      cases h
      exact ⟨rfl, hupper⟩
  | true =>
    cases hupper : value.readsBack ⟨value.floorAt exponent + 1, exponent⟩ with
    | false =>
      rw [hlower, hupper] at h
      cases h
      exact ⟨rfl, hlower⟩
    | true =>
      rw [hlower, hupper] at h
      dsimp only at h
      split at h
      next =>
        cases h
        exact ⟨rfl, hlower⟩
      next =>
        cases h
        exact ⟨rfl, hupper⟩
      next =>
        cases tie with
        | up =>
          cases h
          exact ⟨rfl, hupper⟩
        | toEven =>
          dsimp only at h
          split at h
          · cases h
            exact ⟨rfl, hlower⟩
          · cases h
            exact ⟨rfl, hupper⟩

/-- The search yields a decimal in range, whether it finds one on a grid or not. -/
theorem Finite.Fits.inRange_search (h : value.Fits) (tie : Tie)
    (hexponent : -2000 + grids ≤ exponent) : (value.search tie exponent grids).InRange := by
  induction grids generalizing exponent with
  | zero => exact h.inRange_exact
  | succ grids ih =>
    rw [Finite.search]
    split
    next decimal hfound =>
      obtain ⟨rfl, hreads⟩ := Finite.onGrid?_eq_some hfound
      obtain ⟨hdigits, hvalue⟩ := h.of_readsBack hreads
      exact ⟨hdigits, by omega, hvalue⟩
    next =>
      apply ih
      omega

/-- Trailing zeros are moved without a change of the value. -/
theorem Scientific.InRange.trim (h : decimal.InRange) : decimal.trim.InRange := by
  induction decimal using Scientific.trim.induct with
  | case1 decimal hzero ih =>
    rw [Scientific.trim, dif_pos hzero]
    apply ih
    have hexponent := h.exponent_ge
    have hdigits : (decimal.digits : ℚ) = (decimal.digits / 10 : ℕ) * 10 := by
      have hdiv := Nat.div_mul_cancel (Nat.dvd_of_mod_eq_zero hzero.1)
      exact_mod_cast hdiv.symm
    have hvalue := h.value_lt
    rw [Scientific.value, hdigits, mul_assoc, ← zpow_one_add₀ (by norm_num), add_comm] at hvalue
    refine ⟨?_, ?_, hvalue⟩
    · show 0 < decimal.digits / 10
      omega
    · show -2000 ≤ decimal.exponent + 1
      omega
  | case2 decimal hdone =>
    rw [Scientific.trim, dif_neg hdone]
    exact h

/-- The leading digit of a number is not far below the last place of the smallest numbers. -/
theorem Finite.Fits.magnitude_ge (h : value.Fits) : -400 ≤ value.magnitude := by
  have hexponent := h.exponent_ge
  rw [Finite.magnitude]
  split
  · omega
  · split <;> omega

/-- **The shortest decimal of a number is in range.** -/
theorem Finite.Fits.inRange_shortest (h : value.Fits) (tie : Tie) :
    (value.shortest tie).InRange := by
  have hmagnitude := h.magnitude_ge
  exact (h.inRange_search tie (by push_cast; omega)).trim

/-- Neither NaN nor infinite. -/
def Magnitude.isFinite : Magnitude → Bool
  | .nan | .infinite => false
  | _ => true

/-- A finite number has a significand that is not zero and fits, and an exponent in the range of the
format. -/
theorem Format.decode_eq_finite {format : Format} {bits : ℕ} (hformat : 2 ≤ format.exponentBits)
    (h : format.decode bits = .finite value) :
    0 < value.significand ∧ value.significand < 2 ^ (format.fractionBits + 1) ∧
      format.minExponent ≤ value.exponent ∧
      value.exponent + 2 < format.minExponent + (2 ^ format.exponentBits : ℕ) := by
  rw [decode, Nat.one_shiftLeft, Nat.one_shiftLeft] at h
  have hfraction : bits % 2 ^ format.fractionBits < 2 ^ format.fractionBits :=
    Nat.mod_lt _ (Nat.two_pow_pos _)
  have hfield :
      bits / 2 ^ format.fractionBits % 2 ^ format.exponentBits < 2 ^ format.exponentBits :=
    Nat.mod_lt _ (Nat.two_pow_pos _)
  have hfields : 2 ^ 2 ≤ 2 ^ format.exponentBits := Nat.pow_le_pow_right two_pos hformat
  rw [pow_succ]
  split at h
  next => split at h <;> cases h
  next hlast =>
    split at h
    next hzero =>
      split at h
      next => cases h
      next hpos =>
        cases h
        refine ⟨?_, ?_, ?_, ?_⟩ <;> dsimp only <;> omega
    next hnormal =>
      cases h
      refine ⟨?_, ?_, ?_, ?_⟩ <;> dsimp only <;> omega

/-- A finite number of the 64-bit format fits into its range. -/
theorem fits_of_decode_double {bits : ℕ} (h : double.decode bits = .finite value) :
    value.Fits := by
  obtain ⟨hpos, hlt, hlow, hhigh⟩ := Format.decode_eq_finite (by decide) h
  have hmin : double.minExponent = -1074 := by decide
  have hfields : 2 ^ double.exponentBits = 2048 := by decide
  rw [hmin] at hlow
  rw [hmin, hfields] at hhigh
  exact ⟨hpos, hlt, hlow, by omega⟩

/-- So does a finite number of the 32-bit format. -/
theorem fits_of_decode_single {bits : ℕ} (h : single.decode bits = .finite value) :
    value.Fits := by
  obtain ⟨hpos, hlt, hlow, hhigh⟩ := Format.decode_eq_finite (by decide) h
  have hmin : single.minExponent = -149 := by decide
  have hfields : 2 ^ single.exponentBits = 256 := by decide
  have hwidth : 2 ^ (single.fractionBits + 1) ≤ 2 ^ 53 := by decide
  rw [hmin] at hlow
  rw [hmin, hfields] at hhigh
  exact ⟨hpos, hlt.trans_le hwidth, by omega, by omega⟩

/-! ### Rounding -/

variable {num den bound : ℕ}

/-- A quotient below a number and a half is rounded to this number at most. -/
theorem roundQuotient_le (h : 2 * num < (2 * bound + 1) * den) : roundQuotient num den ≤ bound := by
  have hsplit := Nat.div_add_mod num den
  have hlow : ∀ quotient, quotient ≤ num / den → den * quotient ≤ den * (num / den) :=
    fun quotient => Nat.mul_le_mul_left den
  rw [roundQuotient]
  split
  next hcompare =>
    rw [Nat.compare_eq_lt] at hcompare
    have hremainder := Nat.zero_le (num % den)
    by_contra hgt
    have hproduct := hlow (bound + 1) (Nat.not_le.1 hgt)
    linarith
  next hcompare =>
    rw [Nat.compare_eq_gt] at hcompare
    by_contra hgt
    have hproduct := hlow bound (Nat.lt_succ_iff.1 (Nat.not_le.1 hgt))
    linarith
  next hcompare =>
    rw [Nat.compare_eq_eq] at hcompare
    have hlt : num / den < bound := by
      by_contra hge
      have hproduct := hlow bound (Nat.not_lt.1 hge)
      linarith
    omega

/-- A power of two is at most a quotient iff it is so after shifts. -/
theorem shiftLeft_le_iff (hden : 0 < den) (exponent : ℤ) :
    den <<< exponent.toNat ≤ num <<< (-exponent).toNat ↔ (2 ^ exponent : ℚ) ≤ num / den := by
  have hpos : (0 : ℚ) < 2 ^ (-exponent).toNat := by positivity
  rw [le_div_iff₀ (Nat.cast_pos.2 hden), Nat.shiftLeft_eq, Nat.shiftLeft_eq,
    ← Nat.cast_le (α := ℚ)]
  push_cast
  rw [← zpow_mul_pow_neg two_ne_zero exponent, ← mul_assoc, mul_le_mul_iff_left₀ hpos, mul_comm]

/-- The same bound for a quotient that is scaled by a power of two. -/
theorem roundScaled_le (hden : 0 < den) (h : (num / den : ℚ) < (bound + 1 / 2) * 2 ^ exponent) :
    roundScaled num den exponent ≤ bound := by
  have hpos : (0 : ℚ) < 2 ^ (-exponent).toNat := by positivity
  rw [div_lt_iff₀ (Nat.cast_pos.2 hden)] at h
  refine roundQuotient_le ?_
  rw [Nat.shiftLeft_eq, Nat.shiftLeft_eq, ← Nat.cast_lt (α := ℚ)]
  push_cast
  rw [← zpow_mul_pow_neg two_ne_zero exponent]
  have hscaled := mul_lt_mul_of_pos_right h hpos
  linarith

/-- A quotient lies between the powers of two that its parts suggest. -/
theorem quotient_bounds (hnum : 0 < num) (hden : 0 < den) :
    (2 ^ ((num.log2 : ℤ) - den.log2 - 1) : ℚ) ≤ num / den ∧
      (num / den : ℚ) < 2 ^ ((num.log2 : ℤ) - den.log2 + 1) := by
  have hlow : ∀ {n : ℕ}, 0 < n → (2 ^ (n.log2 : ℤ) : ℚ) ≤ n := by
    intro n hn
    rw [zpow_natCast]
    exact_mod_cast Nat.log2_self_le hn.ne'
  have hhigh : ∀ n : ℕ, (n : ℚ) < 2 ^ ((n.log2 : ℤ) + 1) := by
    intro n
    have hlt : n < 2 ^ (n.log2 + 1) := Nat.lt_log2_self
    exact_mod_cast hlt
  rw [le_div_iff₀ (Nat.cast_pos.2 hden), div_lt_iff₀ (Nat.cast_pos.2 hden)]
  constructor
  · calc (2 ^ ((num.log2 : ℤ) - den.log2 - 1) * den : ℚ)
        ≤ 2 ^ ((num.log2 : ℤ) - den.log2 - 1) * 2 ^ ((den.log2 : ℤ) + 1) :=
          mul_le_mul_of_nonneg_left (hhigh den).le (by positivity)
      _ = 2 ^ (num.log2 : ℤ) := by
          rw [← zpow_add₀ two_ne_zero]
          congr 1
          omega
      _ ≤ num := hlow hnum
  · calc (num : ℚ) < 2 ^ ((num.log2 : ℤ) + 1) := hhigh num
      _ = 2 ^ ((num.log2 : ℤ) - den.log2 + 1) * 2 ^ (den.log2 : ℤ) := by
          rw [← zpow_add₀ two_ne_zero]
          congr 1
          omega
      _ ≤ 2 ^ ((num.log2 : ℤ) - den.log2 + 1) * den :=
          mul_le_mul_of_nonneg_left (hlow hden) (by positivity)

/-- **The exponent fills the significand**, unless it is that of the smallest numbers. -/
theorem Format.scaleOf_spec (format : Format) (hnum : 0 < num) (hden : 0 < den) :
    ∃ filling : ℤ, format.scaleOf num den = max filling format.minExponent ∧
      (2 ^ (filling + format.fractionBits) : ℚ) ≤ num / den ∧
      (num / den : ℚ) < 2 ^ (filling + format.fractionBits + 1) := by
  obtain ⟨hlow, hhigh⟩ := quotient_bounds hnum hden
  rw [scaleOf]
  refine ⟨_, rfl, ?_⟩
  split
  next hfits =>
    rw [shiftLeft_le_iff hden] at hfits
    refine ⟨hfits, hhigh.trans_le ?_⟩
    exact zpow_le_zpow_right₀ one_le_two (by omega)
  next hfits =>
    rw [shiftLeft_le_iff hden] at hfits
    refine ⟨le_trans (zpow_le_zpow_right₀ one_le_two (by omega)) hlow, ?_⟩
    rw [sub_add_eq_add_sub, sub_add_cancel]
    exact not_le.1 hfits

theorem roundingLimit_lt : roundingLimit < 2 ^ (1024 : ℤ) := by
  have hpower : (2 : ℚ) ^ (1024 : ℤ) = 2 ^ 54 * 2 ^ (970 : ℤ) := by
    rw [← zpow_natCast, ← zpow_add₀ two_ne_zero]
    rfl
  rw [roundingLimit, hpower]
  exact mul_lt_mul_of_pos_right (by norm_num) (zpow_pos two_pos _)

/-- The significand of a quotient below the limit, with the exponent that goes with it. -/
theorem double_scaled_le (hnum : 0 < num) (hden : 0 < den) (h : (num / den : ℚ) < roundingLimit)
    (hscale : double.scaleOf num den = exponent) :
    -1074 ≤ exponent ∧ (exponent ≤ 970 ∧ roundScaled num den exponent ≤ 2 ^ 53 ∨
      exponent = 971 ∧ roundScaled num den exponent ≤ 2 ^ 53 - 1) := by
  obtain ⟨filling, hfills, hlow, hhigh⟩ := double.scaleOf_spec hnum hden
  have hexponent : exponent = max filling (-1074) := hscale.symm.trans hfills
  have hbits : (double.fractionBits : ℤ) = 52 := rfl
  rw [hbits] at hlow hhigh
  have hfilling : filling < 972 := by
    have hpower := (hlow.trans_lt h).trans roundingLimit_lt
    have hlt := (zpow_lt_zpow_iff_right₀ one_lt_two).1 hpower
    omega
  refine ⟨by omega, ?_⟩
  rcases lt_or_ge exponent 971 with hsmall | hlarge
  · refine .inl ⟨by omega, roundScaled_le hden (hhigh.trans ?_)⟩
    have hpower : (2 : ℚ) ^ (filling + 52 + 1) ≤ 2 ^ (53 + exponent) :=
      zpow_le_zpow_right₀ one_le_two (by omega)
    refine hpower.trans_lt ?_
    rw [zpow_add₀ two_ne_zero]
    exact mul_lt_mul_of_pos_right (by norm_num) (zpow_pos two_pos _)
  · obtain rfl : exponent = 971 := by omega
    refine .inr ⟨rfl, roundScaled_le hden (h.trans_eq ?_)⟩
    have hpower : (2 : ℚ) ^ (971 : ℤ) = 2 * 2 ^ (970 : ℤ) := by
      rw [← zpow_one_add₀ two_ne_zero]
      rfl
    rw [roundingLimit, hpower, ← mul_assoc]
    congr 1
    norm_num

/-- **What is below the limit rounds to a finite number** of the 64-bit format. -/
theorem double_nearest_lt (hden : 0 < den) (h : (num / den : ℚ) < roundingLimit) :
    double.nearest num den < double.infinityBits := by
  have hmin : double.minExponent = -1074 := by decide
  have hinfinity : double.infinityBits = 2047 * 2 ^ 52 := by decide
  have hbits : double.fractionBits = 52 := rfl
  rw [Format.nearest]
  split
  next => decide
  next hnum =>
    have hscaled := double_scaled_le (Nat.pos_of_ne_zero hnum) hden h rfl
    dsimp only at hscaled ⊢
    rw [hmin, hinfinity, hbits, Nat.shiftLeft_eq]
    omega

/-- Powers of two below a power of ten: eight is below ten, and the tenth power of two is above the
third power of ten. -/
theorem two_zpow_le_ten_zpow {i j : ℤ} (h : 0 ≤ j ∧ i = 3 * j ∨ j < 0 ∧ 3 * i ≤ 10 * j) :
    (2 ^ i : ℚ) ≤ 10 ^ j := by
  rcases h with ⟨hpos, rfl⟩ | ⟨hneg, hle⟩
  · rw [zpow_mul]
    exact zpow_le_zpow_left₀ hpos (by norm_num) (by norm_num)
  · obtain ⟨n, hn⟩ := Int.eq_ofNat_of_zero_le (Int.neg_nonneg.2 hneg.le)
    have hcube : ((2 : ℚ) ^ i) ^ 3 ≤ (10 ^ j) ^ 3 := by
      calc ((2 : ℚ) ^ i) ^ 3 = 2 ^ (3 * i) := by
            rw [← zpow_natCast, ← zpow_mul, mul_comm]
            rfl
        _ ≤ 2 ^ (10 * j) := zpow_le_zpow_right₀ one_le_two hle
        _ = (1024 ^ n)⁻¹ := by
            rw [zpow_mul, ← neg_neg j, hn, zpow_neg, zpow_natCast]
            norm_num
        _ ≤ (1000 ^ n)⁻¹ := by
            refine inv_anti₀ (by positivity) ?_
            exact pow_le_pow_left₀ (by norm_num) (by norm_num) n
        _ = (10 ^ j) ^ 3 := by
            rw [← neg_neg j, hn, zpow_neg, zpow_natCast, inv_pow, ← pow_mul, mul_comm, pow_mul]
            norm_num
    exact (pow_le_pow_iff_left₀ (by positivity) (by positivity) (by norm_num)).1 hcube

/-- A decimal in range has a moderate size. -/
theorem Scientific.InRange.size_le (h : decimal.InRange) :
    decimal.exponent + (decimal.digits.log2 * 30103 / 100000 : ℕ) ≤ 400 := by
  by_contra hlarge
  have hexponent := h.exponent_ge
  have hdigits : (2 ^ (decimal.digits.log2 : ℤ) : ℚ) ≤ decimal.digits := by
    rw [zpow_natCast]
    exact_mod_cast Nat.log2_self_le h.digits_pos.ne'
  -- The digits and the power of ten are both above powers of two, which add up to too much.
  obtain ⟨place, hplace, htotal⟩ : ∃ place : ℤ, (2 ^ place : ℚ) ≤ 10 ^ decimal.exponent ∧
      1024 ≤ decimal.digits.log2 + place := by
    rcases le_or_gt 0 decimal.exponent with hpos | hneg
    · exact ⟨_, two_zpow_le_ten_zpow (.inl ⟨hpos, rfl⟩), by omega⟩
    · exact ⟨10 * decimal.exponent / 3, two_zpow_le_ten_zpow (.inr ⟨hneg, by omega⟩), by omega⟩
  have hvalue : (2 ^ (1024 : ℤ) : ℚ) ≤ decimal.value := by
    calc (2 ^ (1024 : ℤ) : ℚ) ≤ 2 ^ ((decimal.digits.log2 : ℤ) + place) :=
          zpow_le_zpow_right₀ one_le_two htotal
      _ = 2 ^ (decimal.digits.log2 : ℤ) * 2 ^ place := zpow_add₀ two_ne_zero _ _
      _ ≤ decimal.value := mul_le_mul hdigits hplace (by positivity) (Nat.cast_nonneg _)
  exact absurd (h.value_lt.trans roundingLimit_lt) hvalue.not_gt

theorem Scientific.InRange.double_ofDecimal_lt (h : decimal.InRange) :
    double.ofDecimal decimal.digits decimal.exponent < double.infinityBits := by
  have hden : ∀ n, 0 < tenTo n := fun n => Nat.pow_pos (by decide)
  rw [Format.ofDecimal]
  split
  next => decide
  next =>
    split
    next => decide
    next =>
      rw [if_neg (by have hsize := h.size_le; omega)]
      refine double_nearest_lt (hden _) (lt_of_eq_of_lt ?_ h.value_lt)
      rw [Scientific.value, div_eq_iff (Nat.cast_ne_zero.2 (hden _).ne'), tenTo, tenTo, Nat.pow_eq,
        Nat.pow_eq]
      push_cast
      rw [mul_assoc, zpow_mul_pow_neg (by norm_num)]

end Decimal

namespace Double

/-- What is below the bits of infinity is a finite number, with either sign. -/
theorem isFinite_withSign {magnitude : ℕ} (h : magnitude < Decimal.double.infinityBits)
    (negative : Bool) :
    (Double.mk (.ofNat (Decimal.double.withSign negative magnitude))).isFinite = true := by
  have hinfinity : Decimal.double.infinityBits = 2047 * 2 ^ 52 := by decide
  have hscale : 1 <<< Decimal.double.fractionBits = 2 ^ 52 := by decide
  have hfields : 1 <<< Decimal.double.exponentBits = 2048 := by decide
  have hsign : 1 <<< Decimal.double.signPosition = 2 ^ 63 := by decide
  rw [hinfinity] at h
  have hbits : (UInt64.ofNat (Decimal.double.withSign negative magnitude)).toNat =
      Decimal.double.withSign negative magnitude := by
    refine UInt64.toNat_ofNat_of_lt' ?_
    show Decimal.double.withSign negative magnitude < 2 ^ 64
    rw [Decimal.Format.withSign, hsign]
    split <;> omega
  have hfield : Decimal.double.withSign negative magnitude / 2 ^ 52 % 2048 ≠ 2048 - 1 := by
    rw [Decimal.Format.withSign, hsign]
    split <;> omega
  rw [isFinite, hbits, Decimal.Format.decode, hscale, hfields, if_neg hfield]
  by_cases hsmall : Decimal.double.withSign negative magnitude / 2 ^ 52 % 2048 = 0
  · rw [if_pos hsmall]
    by_cases hzero : Decimal.double.withSign negative magnitude % 2 ^ 52 = 0
    · rw [if_pos hzero]
    · rw [if_neg hzero]
  · rw [if_neg hsmall]

/-- **A decimal in range is read as a finite number.** -/
theorem isFinite_ofDecimal {decimal : Decimal.Scientific} (h : decimal.InRange)
    (negative : Bool) :
    (Double.ofDecimal negative decimal.digits decimal.exponent).isFinite = true :=
  isFinite_withSign h.double_ofDecimal_lt negative

end Double

end FieldFlow
