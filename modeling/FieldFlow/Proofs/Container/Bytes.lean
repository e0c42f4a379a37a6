import FieldFlow.Container.Bytes
import Mathlib.Algebra.Group.Nat.Defs

/-!
# Formats of byte fields

What it means that a reader and a writer belong to the same format, and the proof that those of
numbers, strings, lists and optional values do.

## Main Definitions

* `Bytes.Codes`: a reader accepts exactly the bytes of a writer
* `Bytes.TextFits`, `Bytes.ListFits`, `Bytes.OptionFits`: the values whose lengths can be written

## Main Statements

* `Bytes.Codes.unique`: no bytes of a value begin with the bytes of another
* `Bytes.text_codes`, `Bytes.Codes.list`, `Bytes.Codes.optional`: strings, lists and optional values
* `Bytes.codes_of_alternatives`: a format with numbered alternatives

## Design Notes

A length is written modulo the largest number of eight bytes, so the writer is faithful only to
values with lengths below that. The reader never yields another value. So each format comes with
the values that fit, and that a value fits is part of what reading it says.
-/

namespace FieldFlow.Bytes

variable {α β : Type}

/-- The reader accepts exactly the bytes of the values that fit, with anything after them. -/
structure Codes (fits : α → Prop) (write : α → List UInt8) (read : Reader α) : Prop where
  iff {input : List UInt8} {value : α} {rest : List UInt8} :
    read input = .ok (value, rest) ↔ fits value ∧ input = write value ++ rest

/-! ### Readers made of readers -/

section Readers

variable {reader : Reader α} {input : List UInt8}

theorem andThen_eq_ok_iff {next : α → Reader β} {result : β × List UInt8} :
    reader.andThen next input = .ok result ↔
      ∃ value middle, reader input = .ok (value, middle) ∧ next value middle = .ok result := by
  rw [Reader.andThen]
  cases reader input with
  | error fault => simp
  | ok first =>
    obtain ⟨value, middle⟩ := first
    constructor
    · intro h
      exact ⟨value, middle, rfl, h⟩
    · rintro ⟨_, _, hfirst, h⟩
      cases hfirst
      exact h

theorem map_eq_ok_iff {f : α → β} {value : β} {rest : List UInt8} :
    reader.map f input = .ok (value, rest) ↔
      ∃ first, reader input = .ok (first, rest) ∧ f first = value := by
  rw [Reader.map]
  cases reader input with
  | error fault => simp
  | ok result =>
    obtain ⟨first, middle⟩ := result
    simp only [Except.ok.injEq, Prod.mk.injEq]
    constructor
    · rintro ⟨rfl, rfl⟩
      exact ⟨first, ⟨rfl, rfl⟩, rfl⟩
    · rintro ⟨_, ⟨rfl, rfl⟩, rfl⟩
      exact ⟨rfl, rfl⟩

end Readers

namespace Codes

variable {fits : α → Prop} {write : α → List UInt8} {read : Reader α}
variable {first second value : α} {rest rest' input : List UInt8}

/-- The bytes of a value that fits are read as that value. -/
theorem read_append (h : Codes fits write read) (hfits : fits value) (rest : List UInt8) :
    read (write value ++ rest) = .ok (value, rest) :=
  h.iff.2 ⟨hfits, rfl⟩

/-- **Bytes belong to one value.** No bytes of a value that fits begin with those of another. -/
theorem unique (h : Codes fits write read) (hfirst : fits first) (hsecond : fits second)
    (heq : write first ++ rest = write second ++ rest') : first = second ∧ rest = rest' := by
  have hread := h.read_append hfirst rest
  rw [heq, h.read_append hsecond rest'] at hread
  cases hread
  exact ⟨rfl, rfl⟩

/-- What a reader makes of a value that it has read. -/
theorem of_map (h : Codes fits write read) {f : α → β} {result : β}
    (hread : read.map f input = .ok (result, rest)) :
    ∃ value, fits value ∧ input = write value ++ rest ∧ f value = result := by
  obtain ⟨value, hread, hresult⟩ := map_eq_ok_iff.1 hread
  obtain ⟨hfits, hinput⟩ := h.iff.1 hread
  exact ⟨value, hfits, hinput, hresult⟩

theorem map_append (h : Codes fits write read) (hfits : fits value) (f : α → β)
    (rest : List UInt8) : read.map f (write value ++ rest) = .ok (f value, rest) :=
  map_eq_ok_iff.2 ⟨value, h.read_append hfits rest, rfl⟩

/-- A format of other values, each of which stands for one that fits. -/
theorem map (h : Codes fits write read) {f : α → β} (g : β → α) (hfits : ∀ value, fits (g value))
    (hfg : ∀ value, f (g value) = value) (hgf : ∀ value, fits value → g (f value) = value) :
    Codes (fun _ => True) (fun value => write (g value)) (read.map f) where
  iff {input value rest} := by
    constructor
    · intro hread
      obtain ⟨value, hvalue, rfl, rfl⟩ := h.of_map hread
      rw [hgf value hvalue]
      exact ⟨trivial, rfl⟩
    · rintro ⟨-, rfl⟩
      rw [h.map_append (hfits value), hfg]

end Codes

/-! ### Numbers -/

theorem length_number (count n : Nat) : (number count n).length = count := by
  induction count generalizing n with
  | zero => rfl
  | succ count ih => rw [number, List.length_cons, ih]

theorem value_lt (bytes : List UInt8) : value bytes < 256 ^ bytes.length := by
  induction bytes with
  | nil => exact Nat.one_pos
  | cons byte bytes ih =>
    have hbyte : byte.toNat < 256 := byte.toNat_lt
    rw [value, List.length_cons, Nat.pow_succ]
    omega

theorem value_number {count n : Nat} (h : n < 256 ^ count) : value (number count n) = n := by
  induction count generalizing n with
  | zero =>
    rw [Nat.pow_zero, Nat.lt_one_iff] at h
    rw [number, value, h]
  | succ count ih =>
    have hdiv : n / 256 < 256 ^ count := by
      rw [Nat.pow_succ, Nat.mul_comm] at h
      exact Nat.div_lt_of_lt_mul h
    rw [number, value, ih hdiv, UInt8.toNat_ofNat']
    omega

theorem number_value (bytes : List UInt8) : number bytes.length (value bytes) = bytes := by
  induction bytes with
  | nil => rfl
  | cons byte bytes ih =>
    have hbyte : byte.toNat < 256 := byte.toNat_lt
    have hmod : (byte.toNat + 256 * value bytes) % 256 = byte.toNat := by omega
    have hdiv : (byte.toNat + 256 * value bytes) / 256 = value bytes := by omega
    rw [List.length_cons, value, number, hmod, hdiv, ih, UInt8.ofNat_toNat]

theorem readBytes_eq_ok_iff {count : Nat} {input bytes rest : List UInt8} :
    readBytes count input = .ok (bytes, rest) ↔ bytes.length = count ∧ input = bytes ++ rest := by
  rw [readBytes]
  split
  next hlength =>
    constructor
    · intro h
      cases h
      exact ⟨hlength, (List.take_append_drop count input).symm⟩
    · rintro ⟨rfl, rfl⟩
      rw [List.take_left, List.drop_left]
  next hlength =>
    constructor
    · nofun
    · rintro ⟨rfl, rfl⟩
      rw [List.take_left] at hlength
      exact absurd rfl hlength

/-- The numbers of a count of bytes. -/
theorem number_codes (count : Nat) :
    Codes (fun n => n < 256 ^ count) (number count) (readNumber count) where
  iff {input n rest} := by
    rw [readNumber]
    constructor
    · intro h
      split at h
      next => cases h
      next bytes middle hbytes =>
        obtain ⟨rfl, rfl⟩ := readBytes_eq_ok_iff.1 hbytes
        cases h
        rw [number_value]
        exact ⟨value_lt bytes, rfl⟩
    · rintro ⟨hfits, rfl⟩
      rw [readBytes_eq_ok_iff.2 ⟨length_number count n, rfl⟩]
      dsimp only
      rw [value_number hfits]

/-- The numbers of alternatives, if four bytes are enough for them. -/
theorem alternative_codes {alternatives : Nat} (h : alternatives ≤ 256 ^ 4) :
    Codes (fun index => index < alternatives) alternative (readAlternative alternatives) where
  iff {input index rest} := by
    rw [readAlternative]
    constructor
    · intro hread
      split at hread
      next => cases hread
      next index middle hindex =>
        split at hread
        next hlt =>
          cases hread
          exact ⟨hlt, ((number_codes 4).iff.1 hindex).2⟩
        next => cases hread
    · rintro ⟨hlt, rfl⟩
      rw [alternative, (number_codes 4).read_append (Nat.lt_of_lt_of_le hlt h)]
      exact if_pos hlt

/-! ### Strings, lists and optional values -/

/-- The strings whose lengths can be written. -/
def TextFits (text : String) : Prop :=
  text.utf8ByteSize < 256 ^ 8

instance (text : String) : Decidable (TextFits text) :=
  inferInstanceAs (Decidable (text.utf8ByteSize < 256 ^ 8))

/-- The lists whose lengths can be written, and all of their items. -/
def ListFits (fits : α → Prop) (items : List α) : Prop :=
  items.length < 256 ^ 8 ∧ ∀ item ∈ items, fits item

/-- The optional values that can be written. -/
def OptionFits (fits : α → Prop) (value? : Option α) : Prop :=
  ∀ value ∈ value?, fits value

/-- Bytes in UTF-8 are the bytes of one string. -/
theorem fromUTF8?_eq_some_iff {bytes : List UInt8} {text : String} :
    String.fromUTF8? ⟨⟨bytes⟩⟩ = some text ↔ bytes = text.toByteArray.data.toList := by
  rw [String.fromUTF8?]
  constructor
  · intro h
    split at h
    next => cases h; rfl
    next => cases h
  · rintro rfl
    rw [dif_pos text.isValidUTF8]
    rfl

theorem text_codes : Codes TextFits text readText where
  iff {input string rest} := by
    have hlength : string.toByteArray.data.toList.length = string.utf8ByteSize := rfl
    rw [readText, text, hlength, List.append_assoc]
    constructor
    · intro h
      split at h
      next => cases h
      next count middle hcount =>
        obtain ⟨hfits, rfl⟩ := (number_codes 8).iff.1 hcount
        split at h
        next => cases h
        next bytes last hbytes =>
          obtain ⟨rfl, rfl⟩ := readBytes_eq_ok_iff.1 hbytes
          split at h
          next found hfound =>
            cases h
            rw [fromUTF8?_eq_some_iff] at hfound
            subst hfound
            exact ⟨hfits, rfl⟩
          next => cases h
    · rintro ⟨hfits, rfl⟩
      rw [length, (number_codes 8).read_append hfits]
      dsimp only
      rw [readBytes_eq_ok_iff.2 ⟨hlength, rfl⟩]
      dsimp only
      rw [fromUTF8?_eq_some_iff.2 rfl]

namespace Codes

variable {fits : α → Prop} {write : α → List UInt8} {read : Reader α}

/-- A reader of items accepts the bytes of as many items as it is told. -/
theorem readItems_eq_ok_iff (h : Codes fits write read) {count : Nat} {input rest : List UInt8}
    {items : List α} :
    readItems read count input = .ok (items, rest) ↔
      items.length = count ∧ (∀ item ∈ items, fits item) ∧ input = items.flatMap write ++ rest := by
  induction count generalizing input items with
  | zero =>
    rw [readItems]
    constructor
    · intro hread
      cases hread
      exact ⟨rfl, by simp, rfl⟩
    · rintro ⟨hlength, -, rfl⟩
      rw [List.length_eq_zero_iff.1 hlength]
      rfl
  | succ count ih =>
    rw [readItems]
    constructor
    · intro hread
      split at hread
      next => cases hread
      next item middle hitem =>
        obtain ⟨hfits, rfl⟩ := h.iff.1 hitem
        split at hread
        next => cases hread
        next items last hitems =>
          cases hread
          obtain ⟨rfl, hall, rfl⟩ := ih.1 hitems
          refine ⟨rfl, List.forall_mem_cons.2 ⟨hfits, hall⟩, ?_⟩
          rw [List.flatMap_cons, List.append_assoc]
    · rintro ⟨hlength, hall, rfl⟩
      cases items with
      | nil => cases hlength
      | cons item items =>
        obtain ⟨hfits, hall⟩ := List.forall_mem_cons.1 hall
        rw [List.flatMap_cons, List.append_assoc, h.read_append hfits]
        dsimp only
        rw [ih.2 ⟨Nat.succ.inj hlength, hall, rfl⟩]

theorem list (h : Codes fits write read) :
    Codes (ListFits fits) (Bytes.list write) (readList read) where
  iff {input items rest} := by
    rw [readList, Bytes.list, length, List.append_assoc]
    constructor
    · intro hread
      split at hread
      next => cases hread
      next count middle hcount =>
        obtain ⟨hfits, rfl⟩ := (number_codes 8).iff.1 hcount
        obtain ⟨rfl, hall, rfl⟩ := h.readItems_eq_ok_iff.1 hread
        exact ⟨⟨hfits, hall⟩, rfl⟩
    · rintro ⟨⟨hfits, hall⟩, rfl⟩
      rw [(number_codes 8).read_append hfits]
      exact h.readItems_eq_ok_iff.2 ⟨rfl, hall, rfl⟩

theorem optional (h : Codes fits write read) :
    Codes (OptionFits fits) (Bytes.optional write) (readOptional read) where
  iff {input value? rest} := by
    rw [readOptional]
    constructor
    · intro hread
      split at hread
      next => cases hread
      next middle htag =>
        obtain ⟨-, rfl⟩ := (number_codes 1).iff.1 htag
        cases hread
        exact ⟨nofun, rfl⟩
      next middle htag =>
        obtain ⟨-, rfl⟩ := (number_codes 1).iff.1 htag
        split at hread
        next => cases hread
        next value last hvalue =>
          obtain ⟨hfits, rfl⟩ := h.iff.1 hvalue
          cases hread
          refine ⟨?_, rfl⟩
          rintro value ⟨⟩
          exact hfits
      next => cases hread
    · rintro ⟨hfits, rfl⟩
      cases value? with
      | none =>
        have htag : readNumber 1 (Bytes.optional write none ++ rest) = .ok (0, rest) :=
          (number_codes 1).iff.2 ⟨by decide, rfl⟩
        rw [htag]
        rfl
      | some value =>
        have htag : readNumber 1 (Bytes.optional write (some value) ++ rest) =
            .ok (1, write value ++ rest) :=
          (number_codes 1).iff.2 ⟨by decide, rfl⟩
        rw [htag]
        simp only
        rw [h.read_append (hfits value rfl)]

end Codes

/-! ### Alternatives -/

/-- A format with numbered alternatives. Each alternative is read by a reader of its own. -/
theorem codes_of_alternatives {fits : α → Prop} {write : α → List UInt8} {count : Nat}
    {branch : Nat → Reader α} (hcount : count ≤ 256 ^ 4)
    (canonical : ∀ index < count, ∀ input value rest, branch index input = .ok (value, rest) →
      fits value ∧ alternative index ++ input = write value ++ rest)
    (complete : ∀ value, fits value → ∃ index < count, ∃ bytes,
      write value = alternative index ++ bytes ∧
        ∀ rest, branch index (bytes ++ rest) = .ok (value, rest)) :
    Codes fits write ((readAlternative count).andThen branch) where
  iff {input value rest} := by
    rw [andThen_eq_ok_iff]
    constructor
    · rintro ⟨index, middle, hindex, hread⟩
      obtain ⟨hlt, rfl⟩ := (alternative_codes hcount).iff.1 hindex
      exact canonical index hlt middle value rest hread
    · rintro ⟨hfits, rfl⟩
      obtain ⟨index, hlt, bytes, hwrite, hread⟩ := complete value hfits
      refine ⟨index, bytes ++ rest, ?_, hread rest⟩
      rw [hwrite, List.append_assoc]
      exact (alternative_codes hcount).read_append hlt _

/-- A format with numbered alternatives that carry nothing. -/
theorem codes_of_names {write : α → List UInt8} {count : Nat} {name : Nat → α}
    (hcount : count ≤ 256 ^ 4) (canonical : ∀ index < count, write (name index) = alternative index)
    (complete : ∀ value, ∃ index < count, name index = value) :
    Codes (fun _ => True) write ((readAlternative count).map name) where
  iff {input value rest} := by
    constructor
    · intro hread
      obtain ⟨index, hlt, rfl, rfl⟩ := (alternative_codes hcount).of_map hread
      rw [canonical index hlt]
      exact ⟨trivial, rfl⟩
    · rintro ⟨-, rfl⟩
      obtain ⟨index, hlt, rfl⟩ := complete value
      rw [canonical index hlt]
      exact (alternative_codes hcount).map_append hlt name rest

end FieldFlow.Bytes
