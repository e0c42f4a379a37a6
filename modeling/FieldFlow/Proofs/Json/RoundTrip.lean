import FieldFlow.Proofs.Json.Numerals

/-!
# Reading what was written

The reader takes the text of a JSON value for that value, up to the numbers that JSON has no text
for.

## Main Definitions

* `Json.echo`: what the text of a value is read as
* `Json.Readable`: a value whose integers and whose nesting the reader can cope with
* `Json.ReadsBack`: the text of a value is read as its echo, wherever it stands

## Main Statements

* `Json.readString_flatMap`: a string is read as it was written, whatever characters it has
* `Json.ReadsBack.array`, `Json.ReadsBack.object`: an array is read item by item, and an object
  member by member
* `Json.Readable.readsBack`: the text of a value is read as its echo
* `Json.Readable.readFront_pretty`: the whole text of a value is read, and nothing is left of it

## Design Notes

A number of the 32-bit format is read as one of the 64-bit format, and a number that is not finite
as null. The echo of a number is defined as what its text is read as, so that nothing has to be said
about its digits.

Every loop of the reader is bounded by the length of the text. What is left of a bound is kept above
the length of what is left of the text.
-/

namespace FieldFlow.Json

open Decimal (digitsOf)

variable {rest more : List Char} {c : Char} {text name : String} {n level bound nesting : ℕ}
variable {json value : Json} {items : List Json} {members : List (String × Json)}

/-! ### Strings -/

/-- A digit of the sixteen is read as it was written. -/
theorem hexDigit?_digitChar : ∀ n < 16, hexDigit? (Nat.digitChar n) = some n := by
  decide

theorem readHex_hexByte (hn : n < 256) :
    readHex ('0' :: '0' :: (hexByte n ++ rest)) = .ok (n, rest) := by
  have hhigh := hexDigit?_digitChar (n / 16) (by omega)
  have hlow := hexDigit?_digitChar (n % 16) (by omega)
  have hzero : hexDigit? '0' = some 0 := rfl
  show readHex ('0' :: '0' :: Nat.digitChar (n / 16) :: Nat.digitChar (n % 16) :: rest) = _
  rw [readHex, hzero, hhigh, hlow]
  have hvalue : ((0 * 16 + 0) * 16 + n / 16) * 16 + n % 16 = n := by omega
  dsimp only
  rw [hvalue]

/-- **One character of a string is read as it was written**, escaped or not. -/
theorem readStringFrom_escape (read : List Char) (bound : ℕ) (c : Char) (more : List Char) :
    readStringFrom read (bound + 1) (escape c ++ more) = readStringFrom (c :: read) bound more := by
  unfold escape
  split
  iterate 7 rfl
  next hquote hbackslash _ _ _ _ _ =>
    split
    next hcontrol =>
      have hread : readEscape ('u' :: '0' :: '0' :: (hexByte c.toNat ++ more)) = .ok (c, more) := by
        rw [readEscape, readUnicode, readHex_hexByte (by omega)]
        dsimp only
        rw [if_neg (by omega), if_neg (by omega), Char.ofNat_toNat]
      show readStringFrom read (bound + 1)
        ('\\' :: 'u' :: '0' :: '0' :: (hexByte c.toNat ++ more)) = _
      rw [readStringFrom, if_neg (by decide), if_pos rfl, hread]
    next hplain =>
      show readStringFrom read (bound + 1) (c :: more) = _
      rw [readStringFrom, if_neg hquote, if_neg hbackslash, if_neg hplain]

/-- The characters of a string are read up to its closing quote. -/
theorem readStringFrom_flatMap (chars : List Char) (read : List Char)
    (hbound : chars.length < bound) :
    readStringFrom read bound (chars.flatMap escape ++ '"' :: rest) =
      .ok (chars.reverse ++ read, rest) := by
  induction chars generalizing read bound with
  | nil =>
    obtain ⟨bound, rfl⟩ := Nat.exists_eq_add_of_lt hbound
    rfl
  | cons c chars ih =>
    obtain ⟨bound, rfl⟩ := Nat.exists_eq_add_of_lt hbound
    rw [List.flatMap_cons, List.append_assoc, readStringFrom_escape, ih, List.reverse_cons,
      List.append_assoc]
    · rfl
    · rw [List.length_cons]
      omega

/-- **A string is read as it was written**, whatever characters it has. -/
theorem readString_flatMap (hbound : text.toList.length < bound) (rest : List Char) :
    readString bound (text.toList.flatMap escape ++ '"' :: rest) = .ok (text, rest) := by
  rw [readString, readStringFrom_flatMap _ _ hbound]
  dsimp only
  rw [List.append_nil, List.reverse_reverse, String.ofList_toList]

/-- No character is written without a trace. -/
theorem length_le_flatMap (chars : List Char) : chars.length ≤ (chars.flatMap escape).length := by
  have hescape : ∀ c, 0 < (escape c).length := by
    intro c
    unfold escape
    split
    iterate 7 exact Nat.succ_pos _
    split <;> exact Nat.succ_pos _
  induction chars with
  | nil => exact Nat.le_refl _
  | cons c chars ih =>
    have hc := hescape c
    rw [List.flatMap_cons, List.length_append, List.length_cons]
    omega

/-- A bound above the length of a text is one above the number of characters in a string of it. -/
theorem length_lt_of_writeString (h : (writeString text ++ rest).length < bound) :
    text.toList.length < bound := by
  have hle := length_le_flatMap text.toList
  simp only [writeString, List.length_append, List.length_cons] at h
  omega

theorem readValue_writeString (hbound : (writeString text ++ rest).length < bound) :
    readValue bound nesting (writeString text ++ rest) = .ok (string text, rest) := by
  have hread := readString_flatMap (length_lt_of_writeString hbound) rest
  show readValue bound nesting ('"' :: (text.toList.flatMap escape ++ ['"'] ++ rest)) = _
  rw [List.append_assoc, List.singleton_append, readValue.eq_def, skipBlanks_cons rfl]
  simp only [hread]

/-! ### Echoes -/

/-- What the text of a number is read as. -/
def reread (text : List Char) : Json :=
  match readValue 0 0 text with
  | .ok (value, _) => value
  | .error _ => null

/-- What the text of a value is read as. -/
@[simp] def echo : Json → Json
  | null => null
  | bool value => bool value
  | int value => int value
  | single value => reread (writeFloat .jsonSingle Decimal.single value.bits.toNat)
  | double value => reread (writeFloat .jsonDouble Decimal.double value.bits.toNat)
  | string text => string text
  | array items => array (items.map echo)
  | object members => object (members.map fun member => (member.1, echo member.2))
termination_by json => sizeOf json
decreasing_by
  · rename_i hmem
    have hlt := List.sizeOf_lt_of_mem hmem
    rw [array.sizeOf_spec]
    omega
  · rename_i hmem
    have hlt := List.sizeOf_lt_of_mem hmem
    rw [Prod.mk.sizeOf_spec] at hlt
    rw [object.sizeOf_spec]
    omega

/-- The value has integers of 64 bits only, and no more arrays and objects are open in it at the
same time than the bound says. -/
inductive Readable : ℕ → Json → Prop
  | null (nesting : ℕ) : Readable nesting null
  | bool (nesting : ℕ) (value : Bool) : Readable nesting (bool value)
  | int (nesting : ℕ) {value : ℤ} (h : IsWord value) : Readable nesting (int value)
  | single (nesting : ℕ) (value : Single) : Readable nesting (single value)
  | double (nesting : ℕ) (value : Double) : Readable nesting (double value)
  | string (nesting : ℕ) (text : String) : Readable nesting (string text)
  | array {nesting : ℕ} {items : List Json} (h : ∀ item ∈ items, Readable nesting item) :
      Readable (nesting + 1) (array items)
  | object {nesting : ℕ} {members : List (String × Json)}
      (h : ∀ member ∈ members, Readable nesting member.2) : Readable (nesting + 1) (object members)

/-! ### Numbers -/

/-- A number that is not finite has the text of null. -/
theorem writeFloat_of_not_isFinite {layout : Decimal.Layout} {format : Decimal.Format} {bits : ℕ}
    (h : (format.decode bits).isFinite = false) :
    writeFloat layout format bits = ['n', 'u', 'l', 'l'] := by
  cases hdecode : format.decode bits with
  | nan | infinite =>
    rw [writeFloat, hdecode]
  | _ =>
    rw [hdecode] at h
    cases h

/-- A number that is not finite is read as null. -/
theorem reread_of_not_isFinite {layout : Decimal.Layout} {format : Decimal.Format} {bits : ℕ}
    (h : (format.decode bits).isFinite = false) :
    reread (writeFloat layout format bits) = null := by
  rw [writeFloat_of_not_isFinite h]
  rfl

theorem readValue_null (bound nesting : ℕ) (rest : List Char) :
    readValue bound nesting (['n', 'u', 'l', 'l'] ++ rest) = .ok (null, rest) := by
  show readValue bound nesting ('n' :: 'u' :: 'l' :: 'l' :: rest) = _
  rw [readValue.eq_def, skipBlanks_cons rfl]
  rfl

/-- **A number is read as its text says**, whatever follows it. -/
theorem readValue_writeFloat {layout : Decimal.Layout} {format : Decimal.Format} {bits : ℕ}
    (hpoint : layout.pointZero = true)
    (hfits : ∀ value, format.decode bits = .finite value → value.Fits) (bound nesting : ℕ)
    (hrest : Ends rest) :
    readValue bound nesting (writeFloat layout format bits ++ rest) =
      .ok (reread (writeFloat layout format bits), rest) := by
  cases hfinite : (format.decode bits).isFinite with
  | false =>
    rw [reread_of_not_isFinite hfinite, writeFloat_of_not_isFinite hfinite]
    exact readValue_null bound nesting rest
  | true =>
    obtain ⟨negative, numeral, x, htext, hvalid, hvalue⟩ :=
      exists_numeral_writeFloat hpoint hfits hfinite
    have hread : ∀ bound nesting rest, Ends rest →
        readValue bound nesting (writeFloat layout format bits ++ rest) = .ok (double x, rest) := by
      intro bound nesting rest hrest
      rw [htext]
      exact hvalid.readValue_text hvalue bound nesting hrest
    have halone := hread 0 0 [] nofun
    rw [List.append_nil] at halone
    rw [hread bound nesting rest hrest, reread, halone]

/-! ### The front of a value -/

/-- The text begins with a character that is no blank and closes no array. -/
def Starts (text : List Char) : Prop :=
  ∃ c more, text = c :: more ∧ isBlank c = false ∧ c ≠ ']'

theorem Starts.append {text : List Char} (h : Starts text) (rest : List Char) :
    Starts (text ++ rest) := by
  obtain ⟨c, more, rfl, hblank, hc⟩ := h
  exact ⟨c, more ++ rest, rfl, hblank, hc⟩

theorem Numeral.Valid.starts_text {numeral : Numeral} (h : numeral.Valid) (negative : Bool) :
    Starts ((if negative then ['-'] else []) ++ numeral.text) := by
  cases negative with
  | true => exact ⟨'-', numeral.text, rfl, rfl, by decide⟩
  | false =>
    have hwhole := h.whole.toIsDigits
    obtain ⟨c, digits, hdigits⟩ := List.exists_cons_of_ne_nil hwhole.ne_nil
    have hc : c.isDigit = true := hwhole.isDigit c (hdigits ▸ List.mem_cons_self)
    refine ⟨c, digits ++ (fractionText numeral.fraction ++ exponentText numeral.exponent), ?_,
      isBlank_of_isDigit hc, ?_⟩
    · rw [text, hdigits]
      rfl
    · rintro rfl
      cases hc

theorem starts_writeFloat {layout : Decimal.Layout} {format : Decimal.Format} {bits : ℕ}
    (hpoint : layout.pointZero = true)
    (hfits : ∀ value, format.decode bits = .finite value → value.Fits) :
    Starts (writeFloat layout format bits) := by
  cases hfinite : (format.decode bits).isFinite with
  | false =>
    rw [writeFloat_of_not_isFinite hfinite]
    exact ⟨'n', _, rfl, rfl, by decide⟩
  | true =>
    obtain ⟨negative, numeral, x, htext, hvalid, -⟩ :=
      exists_numeral_writeFloat hpoint hfits hfinite
    rw [htext]
    exact hvalid.starts_text negative

theorem starts_writeInt (n : ℤ) : Starts (writeInt n) := by
  have hvalid : Numeral.Valid ⟨digitsOf n.natAbs, none, none⟩ := .of_whole (isWhole_digitsOf _)
  have hstarts := hvalid.starts_text (n < 0)
  rw [Numeral.text] at hstarts
  simpa only [writeInt, decide_eq_true_eq, fractionText, exponentText, List.append_nil]
    using hstarts

/-- **Every value starts with a character of its own.** -/
theorem starts_write (level : ℕ) (json : Json) : Starts (write level json) := by
  cases json with
  | null => exact ⟨'n', _, write.eq_1 level, rfl, by decide⟩
  | bool value =>
    cases value with
    | true => exact ⟨'t', _, by rw [write], rfl, by decide⟩
    | false => exact ⟨'f', _, by rw [write], rfl, by decide⟩
  | int value =>
    rw [write]
    exact starts_writeInt value
  | single value =>
    rw [write]
    exact starts_writeFloat rfl fun _ => Decimal.fits_of_decode_single
  | double value =>
    rw [write]
    exact starts_writeFloat rfl fun _ => Decimal.fits_of_decode_double
  | string text =>
    rw [write]
    exact ⟨'"', _, rfl, rfl, by decide⟩
  | array items =>
    cases items with
    | nil =>
      rw [write]
      exact ⟨'[', _, rfl, rfl, by decide⟩
    | cons item items =>
      rw [write]
      exact ⟨'[', _, rfl, rfl, by decide⟩
  | object members =>
    cases members with
    | nil =>
      rw [write]
      exact ⟨'{', _, rfl, rfl, by decide⟩
    | cons member members =>
      rw [write]
      exact ⟨'{', _, rfl, rfl, by decide⟩

/-! ### Blanks -/

theorem skipBlanks_newLine (level : ℕ) (more : List Char) :
    skipBlanks (newLine level ++ more) = skipBlanks more := by
  rw [skipBlanks, List.dropWhile_append_of_pos, skipBlanks]
  intro c hc
  rcases List.mem_cons.1 hc with rfl | hc
  · rfl
  · rw [(List.mem_replicate.1 hc).2]
    rfl

/-- A blank before a value does not matter. -/
theorem readValue_space (bound nesting : ℕ) (input : List Char) :
    readValue bound nesting (' ' :: input) = readValue bound nesting input := by
  rw [readValue.eq_def, readValue.eq_def bound nesting input]
  rfl

/-! ### Arrays -/

variable {read : List Char → Except Fault (Json × List Char)} {input : List Char} {turns : ℕ}
variable {values : List Json}

/-- The text of the value at the level is read as the echo of the value, at the front of any text
that is shorter than the bound. -/
def ReadsBack (bound nesting level : ℕ) (json : Json) : Prop :=
  ∀ rest, Ends rest → (write level json ++ rest).length < bound →
    readValue bound nesting (write level json ++ rest) = .ok (json.echo, rest)

theorem ends_newLine (level : ℕ) (more : List Char) : Ends (newLine level ++ more) := by
  rintro c ⟨⟩
  exact .inr rfl

theorem ends_writeItems (level : ℕ) (items : List Json) (h : Ends more) :
    Ends (writeItems level items ++ more) := by
  cases items with
  | nil =>
    rw [writeItems]
    exact h
  | cons item items =>
    rw [writeItems]
    rintro c ⟨⟩
    exact .inl rfl

theorem readItems_newLine (hstarts : Starts input) (hitem : read input = .ok (value, more))
    (hmore : readMoreItems read bound more = .ok (values, rest)) :
    readItems read bound (newLine level ++ input) = .ok (value :: values, rest) := by
  obtain ⟨c, tail, rfl, hblank, hc⟩ := hstarts
  rw [readItems, skipBlanks_newLine, skipBlanks_cons hblank]
  split
  next heq => exact absurd (List.cons.inj heq).1 hc
  next => simp only [hitem, hmore]

theorem readMoreItems_comma (hstarts : Starts input) (hitem : read input = .ok (value, more))
    (hmore : readMoreItems read turns more = .ok (values, rest)) :
    readMoreItems read (turns + 1) (',' :: (newLine level ++ input)) =
      .ok (value :: values, rest) := by
  obtain ⟨c, tail, rfl, hblank, hc⟩ := hstarts
  rw [readMoreItems, skipBlanks_cons rfl]
  simp only [skipBlanks_newLine, skipBlanks_cons hblank]
  split
  next heq => exact absurd (List.cons.inj heq).1 hc
  next => simp only [hitem, hmore]

/-- The items after the first are read up to the bracket. -/
theorem readMoreItems_writeItems (n : ℕ) (rest : List Char)
    (hitems : ∀ item ∈ items, ReadsBack bound nesting level item)
    (hturns : (writeItems level items ++ (newLine n ++ ']' :: rest)).length < turns)
    (hbound : turns ≤ bound) :
    readMoreItems (readValue bound nesting) turns
        (writeItems level items ++ (newLine n ++ ']' :: rest)) = .ok (items.map echo, rest) := by
  -- Every turn takes more than one character.
  induction items generalizing turns with
  | nil =>
    obtain ⟨turns, rfl⟩ := Nat.exists_eq_add_of_lt hturns
    rw [writeItems, List.nil_append, readMoreItems, skipBlanks_newLine, skipBlanks_cons rfl]
    rfl
  | cons item items ih =>
    obtain ⟨turns, rfl⟩ : ∃ fewer, turns = fewer + 1 := Nat.exists_eq_succ_of_ne_zero (by omega)
    simp only [writeItems, List.cons_append, List.append_assoc, List.length_cons] at hturns ⊢
    have hends := ends_writeItems level items (ends_newLine n (']' :: rest))
    have hitem := hitems item (.head _) _ hends
      (by simp only [List.length_append] at hturns ⊢; omega)
    have hmore := ih (fun other hmem => hitems other (.tail _ hmem))
      (by simp only [List.length_append] at hturns ⊢; omega) (by omega : turns ≤ bound)
    exact readMoreItems_comma ((starts_write level item).append _) hitem hmore

theorem readValue_bracket
    (h : readItems (readValue bound nesting) bound input = .ok (items, rest)) :
    readValue bound (nesting + 1) ('[' :: input) = .ok (array items, rest) := by
  rw [readValue.eq_def, skipBlanks_cons rfl]
  simp only [h]

/-- **An array is read item by item.** -/
theorem ReadsBack.array (hitems : ∀ item ∈ items, ReadsBack bound nesting (level + 1) item) :
    ReadsBack bound (nesting + 1) level (array items) := by
  intro rest hrest hbound
  rw [echo]
  cases items with
  | nil =>
    rw [write]
    exact readValue_bracket rfl
  | cons item items =>
    simp only [write, List.cons_append, List.append_assoc, List.nil_append, List.length_cons]
      at hbound ⊢
    have hends := ends_writeItems (level + 1) items (ends_newLine level (']' :: rest))
    have hitem := hitems item (.head _) _ hends
      (by simp only [List.length_append] at hbound ⊢; omega)
    have hmore := readMoreItems_writeItems level rest
      (fun other hmem => hitems other (.tail _ hmem))
      (by simp only [List.length_append] at hbound ⊢; omega) (le_refl bound)
    exact readValue_bracket (readItems_newLine ((starts_write _ item).append _) hitem hmore)

/-! ### Objects -/

variable {member : String × Json} {found : List (String × Json)}

theorem ends_writeMembers (level : ℕ) (members : List (String × Json)) (h : Ends more) :
    Ends (writeMembers level members ++ more) := by
  cases members with
  | nil =>
    rw [writeMembers]
    exact h
  | cons member members =>
    rw [writeMembers]
    rintro c ⟨⟩
    exact .inl rfl

/-- A member is read as it was written. -/
theorem readMember_writeString (name : String) (bound : ℕ)
    (hbound : (writeString name ++ input).length < bound)
    (hvalue : read input = .ok (value, rest)) :
    readMember read bound (writeString name ++ ':' :: input) = .ok ((name, value), rest) := by
  have hname := readString_flatMap (length_lt_of_writeString hbound) (':' :: input)
  show readMember read bound ('"' :: (name.toList.flatMap escape ++ ['"'] ++ ':' :: input)) = _
  rw [List.append_assoc, readMember, List.singleton_append, hname]
  dsimp only
  rw [skipBlanks_cons rfl]
  simp only [hvalue]

theorem readMembers_newLine (hmember : readMember read bound ('"' :: input) = .ok (member, more))
    (hmore : readMoreMembers read bound more = .ok (found, rest)) :
    readMembers read bound (newLine level ++ '"' :: input) = .ok (member :: found, rest) := by
  rw [readMembers, skipBlanks_newLine, skipBlanks_cons rfl]
  split
  next heq => cases heq
  next => simp only [hmember, hmore]

theorem readMoreMembers_comma
    (hmember : readMember read (turns + 1) ('"' :: input) = .ok (member, more))
    (hmore : readMoreMembers read turns more = .ok (found, rest)) :
    readMoreMembers read (turns + 1) (',' :: (newLine level ++ '"' :: input)) =
      .ok (member :: found, rest) := by
  have hskip : skipBlanks (newLine level ++ '"' :: input) = '"' :: input := by
    rw [skipBlanks_newLine, skipBlanks_cons rfl]
  rw [readMoreMembers, skipBlanks_cons rfl]
  simp only [hskip, hmember, hmore]

/-- The members after the first are read up to the brace. -/
theorem readMoreMembers_writeMembers (n : ℕ) (rest : List Char)
    (hmembers : ∀ member ∈ members, ReadsBack bound nesting level member.2)
    (hturns : (writeMembers level members ++ (newLine n ++ '}' :: rest)).length < turns)
    (hbound : turns ≤ bound) :
    readMoreMembers (readValue bound nesting) turns
        (writeMembers level members ++ (newLine n ++ '}' :: rest)) =
      .ok (members.map fun member => (member.1, echo member.2), rest) := by
  -- Every turn takes more than one character.
  induction members generalizing turns with
  | nil =>
    obtain ⟨turns, rfl⟩ := Nat.exists_eq_add_of_lt hturns
    rw [writeMembers, List.nil_append, readMoreMembers, skipBlanks_newLine,
      skipBlanks_cons rfl]
    rfl
  | cons member members ih =>
    obtain ⟨name, value⟩ := member
    obtain ⟨turns, rfl⟩ : ∃ fewer, turns = fewer + 1 := Nat.exists_eq_succ_of_ne_zero (by omega)
    simp only [writeMembers, List.cons_append, List.append_assoc, List.length_cons] at hturns ⊢
    have hends := ends_writeMembers level members (ends_newLine n ('}' :: rest))
    have hvalue := hmembers (name, value) (.head _) _ hends
      (by simp only [List.length_append, List.length_cons] at hturns ⊢; omega)
    have hmember := readMember_writeString name (turns + 1)
      (by simp only [List.length_append, List.length_cons] at hturns ⊢; omega)
      ((readValue_space ..).trans hvalue)
    have hmore := ih (fun other hmem => hmembers other (.tail _ hmem))
      (by simp only [List.length_append, List.length_cons] at hturns ⊢; omega)
      (by omega : turns ≤ bound)
    exact readMoreMembers_comma hmember hmore

theorem readValue_brace
    (h : readMembers (readValue bound nesting) bound input = .ok (members, rest)) :
    readValue bound (nesting + 1) ('{' :: input) = .ok (object members, rest) := by
  rw [readValue.eq_def, skipBlanks_cons rfl]
  simp only [h]

/-- **An object is read member by member.** -/
theorem ReadsBack.object
    (hmembers : ∀ member ∈ members, ReadsBack bound nesting (level + 1) member.2) :
    ReadsBack bound (nesting + 1) level (object members) := by
  intro rest hrest hbound
  rw [echo]
  cases members with
  | nil =>
    rw [write]
    exact readValue_brace rfl
  | cons member members =>
    obtain ⟨name, value⟩ := member
    simp only [write, List.cons_append, List.append_assoc, List.nil_append, List.length_cons]
      at hbound ⊢
    have hends := ends_writeMembers (level + 1) members (ends_newLine level ('}' :: rest))
    have hvalue := hmembers (name, value) (.head _) _ hends
      (by simp only [List.length_append, List.length_cons] at hbound ⊢; omega)
    have hmember := readMember_writeString name bound
      (by simp only [List.length_append, List.length_cons] at hbound ⊢; omega)
      ((readValue_space ..).trans hvalue)
    have hmore := readMoreMembers_writeMembers level rest
      (fun other hmem => hmembers other (.tail _ hmem))
      (by simp only [List.length_append, List.length_cons] at hbound ⊢; omega) (le_refl bound)
    exact readValue_brace (readMembers_newLine hmember hmore)

/-! ### Values -/

/-- **The text of a value is read as its echo.** -/
theorem Readable.readsBack (h : Readable nesting json) (bound level : ℕ) :
    ReadsBack bound nesting level json := by
  induction h generalizing level with
  | null nesting =>
    intro rest hrest hbound
    rw [write, echo]
    exact readValue_null bound nesting rest
  | bool nesting value =>
    intro rest hrest hbound
    rw [echo]
    cases value <;> rw [write, readValue.eq_def] <;> rfl
  | int nesting h =>
    intro rest hrest hbound
    rw [write, echo]
    exact readValue_writeInt h hrest
  | single nesting value =>
    intro rest hrest hbound
    rw [write, echo]
    exact readValue_writeFloat rfl (fun _ => Decimal.fits_of_decode_single) bound nesting hrest
  | double nesting value =>
    intro rest hrest hbound
    rw [write, echo]
    exact readValue_writeFloat rfl (fun _ => Decimal.fits_of_decode_double) bound nesting hrest
  | string nesting text =>
    intro rest hrest hbound
    rw [write] at hbound ⊢
    rw [echo]
    exact readValue_writeString hbound
  | array h ih => exact .array fun item hmem => ih item hmem (level + 1)
  | object h ih => exact .object fun member hmem => ih member hmem (level + 1)

/-- **The whole text of a value is read as its echo**, and nothing is left. -/
theorem Readable.readFront_pretty (h : Readable nesting json) :
    readFront nesting (pretty json) = .ok (json.echo, []) := by
  have hread := h.readsBack ((write 0 json).length + 1) 0 [] nofun
  rw [List.append_nil] at hread
  rw [readFront, pretty, String.toList_ofList]
  exact hread (Nat.lt_add_one _)

end FieldFlow.Json
