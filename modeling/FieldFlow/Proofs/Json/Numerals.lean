import FieldFlow.Json.Printer
import FieldFlow.Json.Reader
import FieldFlow.Proofs.Agree
import FieldFlow.Proofs.Decimal.Range

/-!
# Numerals

The numbers of a JSON text by their parts: what the writer puts together and the reader takes apart.

## Main Definitions

* `Json.Numeral`: the digits before the point, those after it, and the exponent
* `Json.Numeral.decimal`: the decimal that a numeral with a point or an exponent stands for
* `Json.Numeral.Writes`: the numeral has the value of a decimal
* `Json.Ends`: what follows a number does not continue it
* `Json.IsWord`: the integers that are read as integers

## Main Statements

* `Json.Numeral.Valid.readUnsigned_text`: a numeral is read as it was put together
* `Json.exists_numeral`: the text of a decimal is a numeral that stands for this decimal
* `Json.readValue_writeInt`: integers of 64 bits are read as they were written
* `Json.exists_numeral_writeFloat`: a finite number is a numeral with a sign, and read as a number

## Design Notes

A number ends where the text goes on with something that is no part of a number. The writer follows
a number with a comma or a line break, if with anything.
-/

namespace FieldFlow.Json

open Decimal (digitsOf Scientific)

/-! ### Digits -/

variable {digits more rest : List Char} {c : Char} {n : ℕ}

/-- All characters are decimal digits, and there is at least one. -/
structure IsDigits (digits : List Char) : Prop where
  ne_nil : digits ≠ []
  isDigit : ∀ c ∈ digits, c.isDigit = true

theorem isDigits_digitsOf (n : ℕ) : IsDigits (digitsOf n) :=
  ⟨Nat.toDigits_ne_nil, fun _ => Nat.isDigit_of_mem_toDigits (by decide) (by decide)⟩

theorem digitsValue_eq (digits : List Char) : digitsValue digits = Nat.ofDigitChars 10 digits 0 :=
  Nat.ofDigitChars_eq_foldl.symm

@[simp] theorem digitsValue_digitsOf (n : ℕ) : digitsValue (digitsOf n) = n := by
  rw [digitsValue_eq]
  exact Nat.ofDigitChars_ten_toDigits

/-- The digits of a number other than zero do not begin with a zero. -/
theorem head?_digitsOf_ne (hn : 0 < n) : (digitsOf n).head? ≠ some '0' := by
  induction n using Nat.strongRecOn with
  | ind n ih =>
    rcases Nat.lt_or_ge n 10 with hlt | hge
    · rw [digitsOf, Nat.toDigits_of_lt_base hlt, List.head?_cons, ne_eq, Option.some.injEq,
        Nat.digitChar_eq_zero]
      exact hn.ne'
    · have hshorter := ih (n / 10) (by omega) (by omega)
      rw [digitsOf, Nat.toDigits_of_base_le (by decide) hge,
        List.head?_append_of_ne_nil _ Nat.toDigits_ne_nil]
      exact hshorter

/-- The digits before a point: only a zero alone begins with a zero. -/
structure IsWhole (digits : List Char) : Prop extends IsDigits digits where
  zero_alone : digits.head? = some '0' → digits.length = 1

theorem isWhole_digitsOf (n : ℕ) : IsWhole (digitsOf n) := by
  refine { isDigits_digitsOf n with zero_alone := ?_ }
  intro hzero
  rcases Nat.eq_zero_or_pos n with rfl | hpos
  · rfl
  · exact absurd hzero (head?_digitsOf_ne hpos)

/-! ### Reading the parts -/

/-- The text does not go on with a digit. -/
def NoDigit (rest : List Char) : Prop :=
  ∀ c ∈ rest.head?, c.isDigit = false

/-- The text ends, or goes on with a comma or a line break, so a number before it is complete. -/
def Ends (rest : List Char) : Prop :=
  ∀ c ∈ rest.head?, c = ',' ∨ c = '\n'

theorem Ends.noDigit (h : Ends rest) : NoDigit rest := by
  intro c hc
  rcases h c hc with rfl | rfl <;> rfl

theorem noDigit_cons (hc : c.isDigit = false) : NoDigit (c :: rest) := by
  intro other hother
  cases hother
  exact hc

theorem readDigits_append (h : IsDigits digits) (hrest : NoDigit rest) :
    readDigits (digits ++ rest) = .ok (digits, rest) := by
  have htake : rest.takeWhile Char.isDigit = [] := by
    cases rest with
    | nil => rfl
    | cons c rest => rw [List.takeWhile_cons, hrest c rfl]; rfl
  have hdrop : rest.dropWhile Char.isDigit = rest := by
    cases rest with
    | nil => rfl
    | cons c rest => rw [List.dropWhile_cons, hrest c rfl]; rfl
  rw [readDigits, List.takeWhile_append_of_pos h.isDigit, htake, List.append_nil,
    List.dropWhile_append_of_pos h.isDigit, hdrop]
  cases digits with
  | nil => exact absurd rfl h.ne_nil
  | cons c digits => rfl

theorem readWhole_append (h : IsWhole digits) (hrest : NoDigit rest) :
    readWhole (digits ++ rest) = .ok (digits, rest) := by
  rw [readWhole, readDigits_append h.toIsDigits hrest]
  split
  next hread =>
    cases hread
    cases h.zero_alone rfl
  next => rfl

/-- The point and the digits after it, if there are any. -/
def fractionText : Option (List Char) → List Char
  | none => []
  | some digits => '.' :: digits

/-- The letter, the sign and the digits of an exponent, if there is one. -/
def exponentText : Option Int → List Char
  | none => []
  | some exponent => 'e' :: (if exponent < 0 then '-' else '+') :: digitsOf exponent.natAbs

variable {fraction : Option (List Char)} {exponent : Option Int}

theorem noDigit_exponentText (hrest : Ends rest) : NoDigit (exponentText exponent ++ rest) := by
  cases exponent with
  | none => exact hrest.noDigit
  | some exponent => exact noDigit_cons (by decide)

theorem noDigit_fractionText (hrest : NoDigit rest) : NoDigit (fractionText fraction ++ rest) := by
  cases fraction with
  | none => exact hrest
  | some digits => exact noDigit_cons (by decide)

theorem readSigned_text (exponent : Int) (hrest : NoDigit rest) :
    readSigned ((if exponent < 0 then '-' else '+') :: (digitsOf exponent.natAbs ++ rest)) =
      .ok (exponent, rest) := by
  have hdigits := readDigits_append (isDigits_digitsOf exponent.natAbs) hrest
  split
  next hneg =>
    rw [readSigned, hdigits]
    dsimp only
    rw [digitsValue_digitsOf, Int.ofNat_natAbs_of_nonpos (Int.le_of_lt hneg), Int.neg_neg]
  next hpos =>
    rw [readSigned, hdigits]
    dsimp only
    rw [digitsValue_digitsOf, Int.natAbs_of_nonneg (Int.not_lt.1 hpos)]

theorem readExponent_text (hrest : Ends rest) :
    readExponent (exponentText exponent ++ rest) = .ok (exponent, rest) := by
  cases exponent with
  | none =>
    cases rest with
    | nil => rfl
    | cons c rest => rcases hrest c rfl with rfl | rfl <;> rfl
  | some exponent =>
    show readExponent ('e' :: (if exponent < 0 then '-' else '+') ::
      (digitsOf exponent.natAbs ++ rest)) = _
    rw [readExponent, if_pos (.inl rfl), readSigned_text exponent hrest.noDigit]

theorem readFraction_text (h : ∀ digits ∈ fraction, IsDigits digits) (hrest : Ends rest) :
    readFraction (fractionText fraction ++ (exponentText exponent ++ rest)) =
      .ok (fraction, exponentText exponent ++ rest) := by
  have hnoDigit : NoDigit (exponentText exponent ++ rest) := noDigit_exponentText hrest
  cases fraction with
  | none =>
    show readFraction (exponentText exponent ++ rest) = _
    cases exponent with
    | none =>
      cases rest with
      | nil => rfl
      | cons c rest => rcases hrest c rfl with rfl | rfl <;> rfl
    | some exponent => rfl
  | some digits =>
    show readFraction ('.' :: (digits ++ (exponentText exponent ++ rest))) = _
    rw [readFraction, readDigits_append (h digits rfl) hnoDigit]

/-! ### Numerals -/

/-- The parts of a number as it is written, its sign left aside. -/
structure Numeral where
  whole : List Char
  fraction : Option (List Char)
  exponent : Option Int

namespace Numeral

variable {numeral : Numeral}

/-- The parts one after another. -/
def text (numeral : Numeral) : List Char :=
  numeral.whole ++ (fractionText numeral.fraction ++ exponentText numeral.exponent)

/-- There are digits wherever there have to be some. -/
structure Valid (numeral : Numeral) : Prop where
  whole : IsWhole numeral.whole
  fraction : ∀ digits ∈ numeral.fraction, IsDigits digits

theorem Valid.of_whole {whole : List Char} {exponent : Option Int} (h : IsWhole whole) :
    Valid ⟨whole, none, exponent⟩ :=
  ⟨h, nofun⟩

theorem Valid.of_fraction {whole fraction : List Char} {exponent : Option Int} (h : IsWhole whole)
    (h' : IsDigits fraction) : Valid ⟨whole, some fraction, exponent⟩ := by
  refine ⟨h, ?_⟩
  intro digits hdigits
  cases hdigits
  exact h'

/-- The decimal that the parts stand for. -/
def decimal (numeral : Numeral) : Scientific where
  digits := digitsValue (numeral.whole ++ numeral.fraction.getD [])
  exponent := numeral.exponent.getD 0 - (numeral.fraction.getD []).length

/-- **A numeral is read as it was put together.** -/
theorem Valid.readUnsigned_text {negative : Bool} {value : Json} (h : numeral.Valid)
    (hrest : Ends rest)
    (hvalue : numberOf negative numeral.whole numeral.fraction numeral.exponent = .ok value) :
    readUnsigned negative (numeral.text ++ rest) = .ok (value, rest) := by
  have hwhole := readWhole_append h.whole
    (noDigit_fractionText (noDigit_exponentText hrest) : NoDigit (fractionText numeral.fraction ++
      (exponentText numeral.exponent ++ rest)))
  rw [text, List.append_assoc, List.append_assoc]
  exact bind_eq_ok.2 ⟨_, hwhole, bind_eq_ok.2 ⟨_, readFraction_text h.fraction hrest,
    bind_eq_ok.2 ⟨_, readExponent_text hrest, bind_eq_ok.2 ⟨value, hvalue, rfl⟩⟩⟩⟩

/-- With a point or an exponent, the number is one of the 64-bit format. -/
theorem numberOf_eq_floatOf (h : numeral.fraction ≠ none ∨ numeral.exponent ≠ none)
    (negative : Bool) :
    numberOf negative numeral.whole numeral.fraction numeral.exponent =
      floatOf negative numeral.decimal.digits numeral.decimal.exponent := by
  unfold numberOf
  split
  next hfraction hexponent => simp [hfraction, hexponent] at h
  next => rfl

end Numeral

/-! ### Decimals -/

/-- The numeral has a point or an exponent, and the value of the decimal. -/
structure Numeral.Writes (numeral : Numeral) (decimal : Scientific) : Prop where
  valid : numeral.Valid
  marked : numeral.fraction ≠ none ∨ numeral.exponent ≠ none
  value : numeral.decimal.value = decimal.value
  exponent_ge : min decimal.exponent (-1) ≤ numeral.decimal.exponent

variable {numeral : Numeral} {decimal : Scientific}

theorem Numeral.Writes.of_eq (valid : numeral.Valid)
    (marked : numeral.fraction ≠ none ∨ numeral.exponent ≠ none)
    (h : numeral.decimal = decimal) : numeral.Writes decimal := by
  refine ⟨valid, marked, by rw [h], ?_⟩
  rw [h]
  exact min_le_left _ _

/-- A numeral that writes a decimal in range stands for one. -/
theorem Numeral.Writes.inRange (h : numeral.Writes decimal) (hdecimal : decimal.InRange) :
    numeral.decimal.InRange where
  digits_pos := by
    have hpos : (0 : ℚ) < decimal.value :=
      mul_pos (Nat.cast_pos.2 hdecimal.digits_pos) (by positivity)
    rw [← h.value, Scientific.value] at hpos
    exact Nat.cast_pos.1 (pos_of_mul_pos_left hpos (by positivity))
  exponent_ge := by
    have hlow := h.exponent_ge
    have hexponent := hdecimal.exponent_ge
    omega
  value_lt := by
    rw [h.value]
    exact hdecimal.value_lt

theorem IsDigits.append (h : IsDigits digits) (hmore : ∀ c ∈ more, c.isDigit = true) :
    IsDigits (digits ++ more) := by
  refine ⟨List.append_ne_nil_of_left_ne_nil h.ne_nil _, ?_⟩
  intro c hc
  rcases List.mem_append.1 hc with hc | hc
  · exact h.isDigit c hc
  · exact hmore c hc

theorem isDigit_of_mem_zeros (hc : c ∈ List.replicate n '0') : c.isDigit = true := by
  rw [(List.mem_replicate.1 hc).2]
  rfl

/-- Zeros behind digits are powers of ten. -/
theorem digitsValue_append_zeros (digits : List Char) (n : ℕ) :
    digitsValue (digits ++ List.replicate n '0') = 10 ^ n * digitsValue digits := by
  rw [digitsValue_eq, Nat.ofDigitChars_append, Nat.ofDigitChars_replicate_zero, digitsValue_eq]

/-- Zeros before digits do not count. -/
theorem digitsValue_zeros_append (digits : List Char) (n : ℕ) :
    digitsValue (List.replicate n '0' ++ digits) = digitsValue digits := by
  rw [digitsValue_eq, Nat.ofDigitChars_append, Nat.ofDigitChars_replicate_zero, Nat.mul_zero,
    digitsValue_eq]

/-- Digits before zeros and a point. -/
theorem exists_numeral_whole (hdigits : IsDigits digits) (hhead : digits.head? ≠ some '0')
    (hvalue : digitsValue digits = decimal.digits) (hexponent : 0 ≤ decimal.exponent) :
    ∃ numeral : Numeral, digits ++ List.replicate decimal.exponent.toNat '0' ++ ['.', '0'] =
      numeral.text ∧ numeral.Writes decimal := by
  obtain ⟨n, hn⟩ := Int.eq_ofNat_of_zero_le hexponent
  rw [hn, Int.toNat_natCast]
  have hzero : IsDigits ['0'] := (isWhole_digitsOf 0).toIsDigits
  refine ⟨⟨digits ++ List.replicate n '0', some ['0'], none⟩, rfl, .of_fraction ⟨?_, ?_⟩ hzero,
    .inl nofun, ?_, ?_⟩
  · exact hdigits.append fun c => isDigit_of_mem_zeros
  · intro hzero
    rw [List.head?_append_of_ne_nil _ hdigits.ne_nil] at hzero
    exact absurd hzero hhead
  · have hzeros : digits ++ List.replicate n '0' ++ ['0'] =
        digits ++ List.replicate (n + 1) '0' := by
      rw [List.append_assoc, List.replicate_succ']
    have hvalue' : Numeral.decimal ⟨digits ++ List.replicate n '0', some ['0'], none⟩ =
        ⟨10 ^ (n + 1) * decimal.digits, -1⟩ := by
      rw [Numeral.decimal, Option.getD_some, hzeros, digitsValue_append_zeros, hvalue]
      rfl
    rw [hvalue', Scientific.value, Scientific.value, hn]
    push_cast
    rw [pow_succ, zpow_natCast, zpow_neg_one]
    ring
  · exact min_le_right _ _

/-- Digits with a point among them. -/
theorem exists_numeral_among (hdigits : IsDigits digits) (hhead : digits.head? ≠ some '0')
    (hvalue : digitsValue digits = decimal.digits) (hexponent : decimal.exponent < 0)
    (hwhole : 0 < digits.length + decimal.exponent) :
    let whole := (digits.length + decimal.exponent).toNat
    ∃ numeral : Numeral, digits.take whole ++ '.' :: digits.drop whole = numeral.text ∧
      numeral.Writes decimal := by
  intro whole
  have htext : ∀ c ∈ digits.take whole, c.isDigit = true :=
    fun c hc => hdigits.isDigit c (List.mem_of_mem_take hc)
  have hfraction : IsDigits (digits.drop whole) := by
    refine ⟨?_, fun c hc => hdigits.isDigit c (List.mem_of_mem_drop hc)⟩
    rw [ne_eq, List.drop_eq_nil_iff]
    omega
  refine ⟨⟨digits.take whole, some (digits.drop whole), none⟩, ?_,
    .of_eq (.of_fraction ⟨⟨?_, htext⟩, ?_⟩ hfraction) (.inl nofun) ?_⟩
  · rw [Numeral.text, fractionText, exponentText, List.append_nil]
  · rw [ne_eq, List.take_eq_nil_iff, not_or]
    exact ⟨by omega, hdigits.ne_nil⟩
  · intro hzero
    rw [List.head?_take, if_neg (by omega)] at hzero
    exact absurd hzero hhead
  · rw [Numeral.decimal, Option.getD_some, List.take_append_drop, hvalue, List.length_drop]
    congr 1
    show (0 : ℤ) - (digits.length - whole : ℕ) = decimal.exponent
    omega

/-- Digits behind a point and zeros. -/
theorem exists_numeral_small (hdigits : IsDigits digits)
    (hvalue : digitsValue digits = decimal.digits)
    (hwhole : digits.length + decimal.exponent ≤ 0) :
    ∃ numeral : Numeral,
      '0' :: '.' :: List.replicate (-(digits.length + decimal.exponent)).toNat '0' ++ digits =
        numeral.text ∧ numeral.Writes decimal := by
  generalize hzeros : (-(digits.length + decimal.exponent)).toNat = zeros
  have hfraction : IsDigits (List.replicate zeros '0' ++ digits) := by
    refine ⟨List.append_ne_nil_of_right_ne_nil _ hdigits.ne_nil, ?_⟩
    intro c hc
    rcases List.mem_append.1 hc with hc | hc
    · exact isDigit_of_mem_zeros hc
    · exact hdigits.isDigit c hc
  refine ⟨⟨['0'], some (List.replicate zeros '0' ++ digits), none⟩, ?_,
    .of_eq (.of_fraction (isWhole_digitsOf 0) hfraction) (.inl nofun) ?_⟩
  · rw [Numeral.text, fractionText, exponentText, List.append_nil]
    rfl
  · have hdecimal : digitsValue (['0'] ++ (List.replicate zeros '0' ++ digits)) =
        decimal.digits := by
      rw [← hvalue, ← digitsValue_zeros_append digits (zeros + 1), List.replicate_succ]
      rfl
    rw [Numeral.decimal, Option.getD_some, hdecimal, List.length_append, List.length_replicate]
    congr 1
    show (0 : ℤ) - (zeros + digits.length : ℕ) = decimal.exponent
    omega

/-- Digits with an exponent. -/
theorem exists_numeral_exponent (hdigits : IsDigits digits)
    (hvalue : digitsValue digits = decimal.digits) :
    ∃ numeral : Numeral, Decimal.Layout.writeExponent digits
        (digits.length + decimal.exponent - 1) = numeral.text ∧ numeral.Writes decimal := by
  generalize hleading : digits.length + decimal.exponent - 1 = leading
  obtain _ | ⟨first, fraction⟩ := digits
  · exact absurd rfl hdigits.ne_nil
  · have hwhole : IsWhole [first] := by
      refine ⟨⟨nofun, ?_⟩, fun _ => rfl⟩
      intro c hc
      exact hdigits.isDigit c (List.mem_singleton.1 hc ▸ List.mem_cons_self)
    obtain _ | ⟨second, more⟩ := fraction
    · refine ⟨⟨[first], none, some leading⟩, rfl, .of_eq (.of_whole hwhole) (.inr nofun) ?_⟩
      rw [Numeral.decimal, Option.getD_none, List.append_nil, hvalue]
      congr 1
      show leading - (0 : ℕ) = decimal.exponent
      rw [List.length_singleton] at hleading
      omega
    · have hfraction : IsDigits (second :: more) :=
        ⟨nofun, fun c hc => hdigits.isDigit c (.tail _ hc)⟩
      refine ⟨⟨[first], some (second :: more), some leading⟩, rfl,
        .of_eq (.of_fraction hwhole hfraction) (.inr nofun) ?_⟩
      rw [Numeral.decimal, Option.getD_some, List.singleton_append, hvalue]
      congr 1
      show leading - ((second :: more).length : ℕ) = decimal.exponent
      rw [List.length_cons] at hleading
      omega

/-- **The text of a decimal is a numeral** with the value of the decimal. -/
theorem exists_numeral {layout : Decimal.Layout} (hpoint : layout.pointZero = true)
    (hpos : 0 < decimal.digits) :
    ∃ numeral : Numeral, layout.writeScientific decimal = numeral.text ∧
      numeral.Writes decimal := by
  have hdigits := isDigits_digitsOf decimal.digits
  have hhead := head?_digitsOf_ne hpos
  have hvalue := digitsValue_digitsOf decimal.digits
  rw [Decimal.Layout.writeScientific]
  split
  next =>
    rw [Decimal.Layout.writePositional, if_pos hpoint]
    split
    next hwhole => exact exists_numeral_whole hdigits hhead hvalue hwhole
    next hfraction =>
      split
      next hwhole => exact exists_numeral_among hdigits hhead hvalue (Int.not_le.1 hfraction) hwhole
      next hsmall => exact exists_numeral_small hdigits hvalue (Int.not_lt.1 hsmall)
  next => exact exists_numeral_exponent hdigits hvalue

/-! ### Numbers as values -/

variable {bound nesting : ℕ} {negative : Bool} {value : Json}

theorem skipBlanks_cons (hc : isBlank c = false) : skipBlanks (c :: rest) = c :: rest := by
  rw [skipBlanks, List.dropWhile_cons, hc]
  rfl

theorem isBlank_of_isDigit (hc : c.isDigit = true) : isBlank c = false := by
  rw [Bool.eq_false_iff]
  intro hblank
  simp only [isBlank, Bool.or_eq_true, decide_eq_true_eq] at hblank
  rcases hblank with ((rfl | rfl) | rfl) | rfl <;> cases hc

/-- A digit at the front begins a number. -/
theorem readValue_digit (hc : c.isDigit = true) :
    readValue bound nesting (c :: rest) = readUnsigned false (c :: rest) := by
  rw [readValue.eq_def, skipBlanks_cons (isBlank_of_isDigit hc)]
  -- None of the other characters that begin a value is a digit.
  split
  all_goals
    next heq => cases heq <;> first | cases hc | exact if_pos hc

/-- **A numeral with a sign is read as a value.** -/
theorem Numeral.Valid.readValue_text (h : numeral.Valid)
    (hvalue : numberOf negative numeral.whole numeral.fraction numeral.exponent = .ok value)
    (bound nesting : ℕ) (hrest : Ends rest) :
    readValue bound nesting ((if negative then ['-'] else []) ++ numeral.text ++ rest) =
      .ok (value, rest) := by
  have hread := h.readUnsigned_text hrest hvalue
  cases negative with
  | true =>
    show readValue bound nesting ('-' :: (numeral.text ++ rest)) = _
    rw [readValue.eq_def, skipBlanks_cons rfl]
    exact hread
  | false =>
    show readValue bound nesting (numeral.text ++ rest) = _
    have hwhole := h.whole.toIsDigits
    rw [text] at hread ⊢
    cases hdigits : numeral.whole with
    | nil => exact absurd hdigits hwhole.ne_nil
    | cons c digits =>
      rw [hdigits] at hread
      exact (readValue_digit (hwhole.isDigit c (hdigits ▸ List.mem_cons_self))).trans hread

/-- An integer that 64 bits hold, with a sign if it is negative. -/
def IsWord (n : ℤ) : Prop :=
  Int64.minValue.toInt ≤ n ∧ n < UInt64.size

theorem integerOf_natAbs {n : ℤ} (h : IsWord n) : integerOf (n < 0) n.natAbs = .ok (int n) := by
  obtain ⟨hlow, hhigh⟩ := h
  rw [integerOf]
  by_cases hneg : n < 0
  · have habs : -(n.natAbs : ℤ) = n := by omega
    rw [if_pos (decide_eq_true hneg), habs, if_pos ⟨by omega, hlow⟩]
  · have habs : (n.natAbs : ℤ) = n := by omega
    rw [if_neg (by simpa using hneg), habs, if_pos (by omega)]

/-- **Integers of 64 bits are read as they were written.** -/
theorem readValue_writeInt {n : ℤ} (h : IsWord n) (hrest : Ends rest) :
    readValue bound nesting (writeInt n ++ rest) = .ok (int n, rest) := by
  have hvalid : Numeral.Valid ⟨digitsOf n.natAbs, none, none⟩ := .of_whole (isWhole_digitsOf _)
  have htext : Numeral.text ⟨digitsOf n.natAbs, none, none⟩ = digitsOf n.natAbs :=
    List.append_nil _
  have hvalue : numberOf (n < 0) (digitsOf n.natAbs) none none = .ok (int n) := by
    rw [numberOf, digitsValue_digitsOf]
    exact integerOf_natAbs h
  have hread := hvalid.readValue_text hvalue bound nesting hrest
  rw [htext] at hread
  rw [writeInt, ← hread]
  simp only [decide_eq_true_eq]

/-- A zero with a point is read as a number. -/
theorem floatOf_zero (negative : Bool) (exponent : ℤ) :
    floatOf negative 0 exponent = .ok (double (.ofDecimal negative 0 exponent)) := by
  have hzero : Decimal.double.ofDecimal 0 exponent = 0 := by
    rw [Decimal.Format.ofDecimal, if_pos rfl]
  have hfinite : (Double.ofDecimal negative 0 exponent).isFinite = true := by
    rw [Double.ofDecimal, hzero]
    exact Double.isFinite_withSign (by decide) negative
  rw [floatOf]
  exact if_pos hfinite

theorem floatOf_of_inRange (h : decimal.InRange) (negative : Bool) :
    floatOf negative decimal.digits decimal.exponent =
      .ok (double (.ofDecimal negative decimal.digits decimal.exponent)) := by
  rw [floatOf]
  exact if_pos (Double.isFinite_ofDecimal h negative)

/-- **A finite number is a numeral with a sign**, and is read as a number. -/
theorem exists_numeral_writeFloat {layout : Decimal.Layout} {format : Decimal.Format} {bits : ℕ}
    (hpoint : layout.pointZero = true)
    (hfits : ∀ value, format.decode bits = .finite value → value.Fits)
    (hfinite : (format.decode bits).isFinite = true) :
    ∃ (negative : Bool) (numeral : Numeral) (x : Double),
      writeFloat layout format bits = (if negative then ['-'] else []) ++ numeral.text ∧
        numeral.Valid ∧
        numberOf negative numeral.whole numeral.fraction numeral.exponent = .ok (double x) := by
  rw [writeFloat, Decimal.Layout.write]
  cases hdecode : format.decode bits with
  | nan | infinite =>
    rw [hdecode] at hfinite
    cases hfinite
  | zero =>
    refine ⟨format.isNegative bits, ⟨['0'], some ['0'], none⟩, _, ?_,
      .of_fraction (isWhole_digitsOf 0) (isDigits_digitsOf 0), floatOf_zero _ _⟩
    dsimp only
    rw [if_pos hpoint]
    rfl
  | finite value =>
    have hshortest := (hfits value hdecode).inRange_shortest layout.tie
    obtain ⟨numeral, htext, hwrites⟩ := exists_numeral hpoint hshortest.digits_pos
    have hvalue := (Numeral.numberOf_eq_floatOf hwrites.marked (format.isNegative bits)).trans
      (floatOf_of_inRange (hwrites.inRange hshortest) _)
    refine ⟨format.isNegative bits, numeral, _, ?_, hwrites.valid, hvalue⟩
    dsimp only
    rw [htext]

end FieldFlow.Json
