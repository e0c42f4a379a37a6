import FieldFlow.Json.Reader
import FieldFlow.Proofs.Agree
import Mathlib.Data.String.Basic

/-!
# The extent of what is read

No string and no array of a JSON value is longer than the text from which the value was read.

## Main Definitions

* `Json.extent`: the bytes of all strings in a value, and one for each item of an array
* `Json.Bounded`: a reader takes more bytes than the extent of what it returns

## Main Statements

* `Json.bounded_readValue`: a value takes more bytes of the text than its extent says
* `Json.extent_lt_of_readFront`: the extent of the value at the front of a text

## Design Notes

Lengths are counted in bytes of UTF-8, because an escape of six bytes may stand for a character of
three. No reader puts more into its result than it takes from the text, so the bounds of the parts
add up.
-/

namespace FieldFlow.Json

open String (utf8Len)

mutual

/-- The bytes of all strings in the value, and one for each item of an array. -/
def extent : Json → Nat
  | string text => text.utf8ByteSize
  | array items => extentAll items
  | object members => extentMembers members
  | _ => 0

/-- The extents of the items, and one for each of them. -/
def extentAll : List Json → Nat
  | [] => 0
  | item :: items => item.extent + 1 + extentAll items

/-- The extents of the values and the bytes of the names. -/
def extentMembers : List (String × Json) → Nat
  | [] => 0
  | (name, value) :: members => name.utf8ByteSize + value.extent + extentMembers members

end

variable {input rest word digits : List Char} {c : Char} {n bound nesting : Nat}
variable {json value : Json} {items : List Json} {members : List (String × Json)}

/-! ### Blanks, words and numbers -/

theorem utf8Len_skipBlanks_le (input : List Char) : utf8Len (skipBlanks input) ≤ utf8Len input :=
  String.utf8Len_le_of_suffix (List.dropWhile_suffix _)

theorem utf8Len_readWord_le (h : readWord word input = .ok rest) :
    utf8Len rest ≤ utf8Len input := by
  fun_induction readWord word input with
  | case1 rest => cases h; exact Nat.le_refl _
  | case2 => cases h
  | case3 word c input ih =>
    have hlater := ih h
    rw [String.utf8Len_cons]
    omega
  | case4 => cases h

/-- Digits take at least one byte. -/
theorem utf8Len_readDigits_lt (h : readDigits input = .ok (digits, rest)) :
    utf8Len rest < utf8Len input := by
  rw [readDigits] at h
  split at h
  next => cases h
  next found hsome =>
    cases h
    have hsplit : utf8Len (input.takeWhile Char.isDigit ++ input.dropWhile Char.isDigit) =
        utf8Len input := congrArg utf8Len List.takeWhile_append_dropWhile
    have hpos : utf8Len (input.takeWhile Char.isDigit) ≠ 0 := fun h =>
      hsome (String.utf8Len_eq_zero.1 h)
    rw [String.utf8Len_append] at hsplit
    omega

theorem utf8Len_readWhole_lt (h : readWhole input = .ok (digits, rest)) :
    utf8Len rest < utf8Len input := by
  rw [readWhole] at h
  split at h
  next => cases h
  next => exact utf8Len_readDigits_lt h

theorem utf8Len_readFraction_le {fraction : Option (List Char)}
    (h : readFraction input = .ok (fraction, rest)) : utf8Len rest ≤ utf8Len input := by
  rw [readFraction.eq_def] at h
  split at h
  next =>
    split at h
    next digits more hdigits =>
      cases h
      have hlt := utf8Len_readDigits_lt hdigits
      rw [String.utf8Len_cons]
      omega
    next => cases h
  next =>
    cases h
    exact Nat.le_refl _

theorem utf8Len_readSigned_le {exponent : Int} (h : readSigned input = .ok (exponent, rest)) :
    utf8Len rest ≤ utf8Len input := by
  -- The digits follow a sign, or stand alone.
  have hdigits : ∃ digits unsigned, readDigits unsigned = .ok (digits, rest) ∧
      utf8Len unsigned ≤ utf8Len input := by
    rw [readSigned.eq_def] at h
    split at h
    all_goals
      split at h
      next digits more hdigits =>
        cases h
        exact ⟨digits, _, hdigits, by simp⟩
      next => cases h
  obtain ⟨digits, unsigned, hdigits, hunsigned⟩ := hdigits
  exact Nat.le_trans (Nat.le_of_lt (utf8Len_readDigits_lt hdigits)) hunsigned

theorem utf8Len_readExponent_le {exponent : Option Int}
    (h : readExponent input = .ok (exponent, rest)) : utf8Len rest ≤ utf8Len input := by
  rw [readExponent.eq_def] at h
  split at h
  next c more =>
    split at h
    next =>
      split at h
      next exponent more hsigned =>
        cases h
        have hle := utf8Len_readSigned_le hsigned
        rw [String.utf8Len_cons]
        omega
      next => cases h
    next =>
      cases h
      exact Nat.le_refl _
  next =>
    cases h
    exact Nat.le_refl _

theorem extent_floatOf {negative : Bool} {exponent : Int}
    (h : floatOf negative n exponent = .ok value) : value.extent = 0 := by
  rw [floatOf] at h
  split at h
  next =>
    cases h
    rw [extent] <;> nofun
  next => cases h

theorem extent_numberOf {negative : Bool} {fraction : Option (List Char)} {exponent : Option Int}
    (h : numberOf negative digits fraction exponent = .ok value) : value.extent = 0 := by
  rw [numberOf.eq_def] at h
  split at h
  next =>
    -- An integer, unless it is too large.
    rw [integerOf] at h
    split at h
    all_goals
      split at h
      next => cases h; rfl
      next => exact extent_floatOf h
  next => exact extent_floatOf h

/-- A number takes at least one byte, and its extent is none. -/
theorem extent_readUnsigned {negative : Bool}
    (h : readUnsigned negative input = .ok (value, rest)) :
    value.extent = 0 ∧ utf8Len rest < utf8Len input := by
  obtain ⟨⟨whole, afterWhole⟩, hwhole, h⟩ := bind_eq_ok.1 h
  obtain ⟨⟨fraction, afterFraction⟩, hfraction, h⟩ := bind_eq_ok.1 h
  obtain ⟨⟨exponent, afterExponent⟩, hexponent, h⟩ := bind_eq_ok.1 h
  obtain ⟨number, hnumber, h⟩ := bind_eq_ok.1 h
  cases h
  have hrest := utf8Len_readWhole_lt hwhole
  have hrest' := utf8Len_readFraction_le hfraction
  have hrest'' := utf8Len_readExponent_le hexponent
  exact ⟨extent_numberOf hnumber, by omega⟩

/-! ### Strings -/

/-- Four digits take at least four bytes. -/
theorem utf8Len_readHex_le (h : readHex input = .ok (n, rest)) :
    utf8Len rest + 4 ≤ utf8Len input := by
  rw [readHex.eq_def] at h
  split at h
  next a b c d more =>
    split at h
    next =>
      cases h
      have ha := a.utf8Size_pos
      have hb := b.utf8Size_pos
      have hc := c.utf8Size_pos
      have hd := d.utf8Size_pos
      simp only [String.utf8Len_cons]
      omega
    next => cases h
  next => split at h <;> cases h

/-- An escape takes no fewer bytes than the character that it stands for. -/
theorem utf8Len_readUnicode_le (h : readUnicode input = .ok (c, rest)) :
    c.utf8Size + utf8Len rest ≤ utf8Len input := by
  have hc := c.utf8Size_le_four
  rw [readUnicode] at h
  split at h
  next => cases h
  next n more hhex =>
    have hfirst := utf8Len_readHex_le hhex
    split at h
    next =>
      -- The second half of the pair takes more bytes still.
      rw [readLowSurrogate.eq_def] at h
      split at h
      next => cases h
      next => cases h
      next low =>
        split at h
        next => cases h
        next hlow =>
          have hsecond := utf8Len_readHex_le hlow
          simp only [String.utf8Len_cons] at hfirst
          split at h
          next =>
            rw [Except.ok.injEq, Prod.mk.injEq] at h
            obtain ⟨-, rfl⟩ := h
            omega
          next => cases h
      next => cases h
    next =>
      split at h
      next => cases h
      next =>
        cases h
        omega

theorem utf8Len_readEscape_le (h : readEscape input = .ok (c, rest)) :
    c.utf8Size + utf8Len rest ≤ utf8Len input := by
  rw [readEscape.eq_def] at h
  split at h
  case h_10 =>
    have hle := utf8Len_readUnicode_le h
    rw [String.utf8Len_cons]
    omega
  -- Any other escape is one character for another, and both take one byte.
  all_goals
    cases h
  all_goals
    exact Nat.le_of_eq (Nat.add_comm _ _)

theorem utf8Len_readStringFrom_le {read chars : List Char}
    (h : readStringFrom read bound input = .ok (chars, rest)) :
    utf8Len chars + 1 + utf8Len rest ≤ utf8Len read + utf8Len input := by
  fun_induction readStringFrom read bound input with
  | case1 => cases h
  | case2 => cases h
  | case3 read bound more =>
    cases h
    have hquote : ('"').utf8Size = 1 := by decide
    rw [String.utf8Len_cons, hquote]
    omega
  | case4 => cases h
  | case5 read bound more c afterEscape hescape _ ih =>
    have hlater := ih h
    have hchar := utf8Len_readEscape_le hescape
    simp only [String.utf8Len_cons] at hlater ⊢
    omega
  | case6 => cases h
  | case7 read bound c more _ _ _ ih =>
    have hlater := ih h
    simp only [String.utf8Len_cons] at hlater ⊢
    omega

/-- A string takes its closing quote and no fewer bytes than it has. -/
theorem extent_readString {text : String} (h : readString bound input = .ok (text, rest)) :
    text.utf8ByteSize + 1 + utf8Len rest ≤ utf8Len input := by
  rw [readString] at h
  split at h
  next => cases h
  next chars more hchars =>
    cases h
    have hle := utf8Len_readStringFrom_le hchars
    rw [String.utf8ByteSize_ofList, String.utf8Len_reverse]
    simpa using hle

/-! ### Arrays and objects -/

/-- What follows a character after blanks takes fewer bytes than all of it. -/
theorem utf8Len_lt_of_skipBlanks (h : skipBlanks input = c :: rest) :
    utf8Len rest + 1 ≤ utf8Len input := by
  have hle := utf8Len_skipBlanks_le input
  have hc := c.utf8Size_pos
  rw [h, String.utf8Len_cons] at hle
  omega

/-- What the reader returns takes more bytes than its extent says. -/
def Bounded (item : List Char → Except Fault (Json × List Char)) : Prop :=
  ∀ input value rest, item input = .ok (value, rest) →
    value.extent + 1 + utf8Len rest ≤ utf8Len input

variable {item : List Char → Except Fault (Json × List Char)}

theorem Bounded.readMoreItems (hitem : Bounded item)
    (h : readMoreItems item bound input = .ok (items, rest)) :
    extentAll items + 1 + utf8Len rest ≤ utf8Len input := by
  fun_induction Json.readMoreItems item bound input generalizing items rest with
  | case2 bound input more hbracket =>
    cases h
    have hlt := utf8Len_lt_of_skipBlanks hbracket
    rw [extentAll]
    omega
  | case6 bound input more hcomma value afterItem values afterAll hrest _ hvalue ih =>
    cases h
    have hcomma := utf8Len_lt_of_skipBlanks hcomma
    have hblanks := utf8Len_skipBlanks_le more
    have hvalue := hitem _ _ _ hvalue
    have hrest := ih hrest
    rw [extentAll]
    omega
  | _ => cases h

theorem Bounded.readItems (hitem : Bounded item)
    (h : readItems item bound input = .ok (items, rest)) :
    extentAll items + 1 + utf8Len rest ≤ utf8Len input := by
  have hblanks := utf8Len_skipBlanks_le input
  fun_cases Json.readItems item bound input with
  | case1 more hbracket =>
    rw [Json.readItems, hbracket] at h
    cases h
    have hlt := utf8Len_lt_of_skipBlanks hbracket
    rw [extentAll]
    omega
  | case4 value afterItem values afterAll hmore _ hvalue =>
    simp only [Json.readItems, hvalue, hmore] at h
    cases h
    have hvalue := hitem _ _ _ hvalue
    have hmore := hitem.readMoreItems hmore
    rw [extentAll]
    omega
  | _ => simp_all [Json.readItems]

theorem Bounded.readMember {member : String × Json} (hitem : Bounded item)
    (h : readMember item bound input = .ok (member, rest)) :
    member.1.utf8ByteSize + member.2.extent + 1 + utf8Len rest ≤ utf8Len input := by
  rw [Json.readMember.eq_def] at h
  split at h
  next more =>
    split at h
    next => cases h
    next name afterName hname =>
      have hname := extent_readString hname
      split at h
      next afterColon hcolon =>
        have hcolon := utf8Len_lt_of_skipBlanks hcolon
        split at h
        next => cases h
        next value afterValue hvalue =>
          cases h
          have hvalue := hitem _ _ _ hvalue
          rw [String.utf8Len_cons]
          dsimp only
          omega
      next => cases h
  next => cases h

theorem Bounded.readMoreMembers (hitem : Bounded item)
    (h : readMoreMembers item bound input = .ok (members, rest)) :
    extentMembers members + 1 + utf8Len rest ≤ utf8Len input := by
  fun_induction Json.readMoreMembers item bound input generalizing members rest with
  | case2 bound input more hbrace =>
    cases h
    have hlt := utf8Len_lt_of_skipBlanks hbrace
    rw [extentMembers]
    omega
  | case5 bound input more hcomma member afterMember hmember members afterAll hrest ih =>
    cases h
    have hcomma := utf8Len_lt_of_skipBlanks hcomma
    have hblanks := utf8Len_skipBlanks_le more
    have hmember := hitem.readMember hmember
    have hrest := ih hrest
    rw [extentMembers]
    omega
  | _ => cases h

theorem Bounded.readMembers (hitem : Bounded item)
    (h : readMembers item bound input = .ok (members, rest)) :
    extentMembers members + 1 + utf8Len rest ≤ utf8Len input := by
  have hblanks := utf8Len_skipBlanks_le input
  fun_cases Json.readMembers item bound input with
  | case1 more hbrace =>
    rw [Json.readMembers, hbrace] at h
    cases h
    have hlt := utf8Len_lt_of_skipBlanks hbrace
    rw [extentMembers]
    omega
  | case4 member afterMember values afterAll hmore _ hmember =>
    simp only [Json.readMembers, hmember, hmore] at h
    cases h
    have hmember := hitem.readMember hmember
    have hmore := hitem.readMoreMembers hmore
    rw [extentMembers]
    omega
  | _ => simp_all [Json.readMembers]

/-! ### Values -/

theorem extent_readConstant (hvalue : value.extent = 0)
    (h : readConstant word value input = .ok (json, rest)) :
    json.extent + utf8Len rest ≤ utf8Len input := by
  rw [readConstant] at h
  split at h
  next => cases h
  next hword =>
    cases h
    have hle := utf8Len_readWord_le hword
    omega

/-- **A value takes more bytes than its extent says.** -/
theorem bounded_readValue (bound nesting : Nat) : Bounded (readValue bound nesting) := by
  induction nesting using Nat.strongRecOn with
  | ind nesting ih =>
    intro input value rest h
    rw [readValue.eq_def] at h
    split at h
    case h_1 => cases h
    case h_2 more hfirst | h_3 more hfirst | h_4 more hfirst =>
      have hle := extent_readConstant rfl h
      have hlt := utf8Len_lt_of_skipBlanks hfirst
      omega
    case h_5 more hfirst =>
      obtain ⟨hvalue, hnumber⟩ := extent_readUnsigned h
      have hlt := utf8Len_lt_of_skipBlanks hfirst
      omega
    case h_6 more hfirst =>
      have hlt := utf8Len_lt_of_skipBlanks hfirst
      split at h
      next => cases h
      next text afterText htext =>
        cases h
        have htext := extent_readString htext
        rw [extent]
        omega
    case h_7 more hfirst =>
      have hlt := utf8Len_lt_of_skipBlanks hfirst
      cases nesting with
      | zero => cases h
      | succ nesting =>
        dsimp only at h
        split at h
        next => cases h
        next items afterItems hitems =>
          cases h
          have hitems := (ih nesting (Nat.lt_succ_self _)).readItems hitems
          rw [extent]
          omega
    case h_8 more hfirst =>
      have hlt := utf8Len_lt_of_skipBlanks hfirst
      cases nesting with
      | zero => cases h
      | succ nesting =>
        dsimp only at h
        split at h
        next => cases h
        next members afterMembers hmembers =>
          cases h
          have hmembers := (ih nesting (Nat.lt_succ_self _)).readMembers hmembers
          rw [extent]
          omega
    case h_9 c more _ _ _ _ _ _ _ hfirst =>
      have hle := utf8Len_skipBlanks_le input
      rw [hfirst] at hle
      split at h
      next =>
        obtain ⟨hvalue, hnumber⟩ := extent_readUnsigned h
        omega
      next => cases h

/-- **The extent of the value at the front of a text is less than the length of the text.** -/
theorem extent_lt_of_readFront {text : String} (h : readFront nesting text = .ok (value, rest)) :
    value.extent < text.utf8ByteSize := by
  have hle := bounded_readValue _ _ _ _ _ h
  rw [String.utf8Len_toList] at hle
  omega

end FieldFlow.Json
