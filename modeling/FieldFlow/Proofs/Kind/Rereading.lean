import FieldFlow.Instruction
import FieldFlow.Proofs.Kind.Grammar

/-!
# Descriptors read again

Which kinds and signatures are read from the descriptor that is written for them.

## Main Definitions

* `Kind.FitsDescriptor`: a class name that a descriptor can carry
* `Signature.kinds`: the kinds of the arguments and of the result

## Main Statements

* `Kind.Spells.length_spell_le`: no text of a kind is shorter than the one that is written for it
* `Kind.spells_spell_reference_iff`: which references are read from their descriptor
* `Signature.ofChars_spell_iff`: a signature is read from its descriptor iff its kinds are, and no
  argument holds a closing parenthesis
* `Call.ofDescriptor_descriptor_iff`: the same for calls, in terms of class names
* `Signature.reread_iff`, `Kind.reread_iff`, `Call.reread_iff_brackets`: when what was read from a
  descriptor is read the same from the descriptor written for it

## Design Notes

Descriptors stand next to each other without a separator, so a name with an odd character could be
read as parts of several types. Lengths rule this out: each kind that is read takes at least as many
characters as are written for it, and in the end all of them are used up.
-/

namespace FieldFlow

/-! ### Dots and slashes -/

namespace Kind

variable {c d : Char} {name : List Char}

theorem slashToDot_dotToSlash (h : c ≠ '/') : slashToDot (dotToSlash c) = c := by
  unfold dotToSlash slashToDot
  split_ifs <;> simp_all

theorem map_slashToDot_map_dotToSlash (h : '/' ∉ name) :
    (name.map dotToSlash).map slashToDot = name := by
  rw [List.map_map]
  refine (List.map_congr_left fun c hc => ?_).trans name.map_id
  exact slashToDot_dotToSlash fun heq => h (heq ▸ hc)

theorem slash_not_mem_map_slashToDot (name : List Char) : '/' ∉ name.map slashToDot := by
  rw [List.mem_map]
  rintro ⟨c, -, hc⟩
  unfold slashToDot at hc
  split at hc
  · cases hc
  · contradiction

/-- Writing one character for another leaves the places of all others as they are. -/
theorem mem_map_replace_iff {former replacement : Char} (hformer : d ≠ former)
    (hreplacement : d ≠ replacement) :
    d ∈ name.map (fun c => if c = former then replacement else c) ↔ d ∈ name := by
  have hsame : ∀ c, (if c = former then replacement else c) = d ↔ c = d := by
    intro c
    split_ifs with h
    · subst h
      exact iff_of_false hreplacement.symm hformer.symm
    · rfl
  simp [List.mem_map, hsame]

theorem mem_map_slashToDot_iff (hdot : d ≠ '.') (hslash : d ≠ '/') :
    d ∈ name.map slashToDot ↔ d ∈ name :=
  mem_map_replace_iff hslash hdot

theorem mem_map_dotToSlash_iff (hdot : d ≠ '.') (hslash : d ≠ '/') :
    d ∈ name.map dotToSlash ↔ d ∈ name :=
  mem_map_replace_iff hdot hslash

/-! ### References -/

variable {text : List Char} {kind : Kind} {className : String}

/-- The name is the descriptor of an array, or it does not begin like one and has no character that
ends a name or that is read as a dot. -/
def FitsDescriptor (className : String) : Prop :=
  (className.toList.head? = some '[' ∧ ∃ kind, ofDescriptor className = .ok kind) ∨
    (className.toList.head? ≠ some '[' ∧ ';' ∉ className.toList ∧ '/' ∉ className.toList)

theorem spell_reference_of_bracket (h : className.toList.head? = some '[') :
    (reference className).spell = className.toList := by
  show spellReference className.toList = _
  unfold spellReference
  split
  · rfl
  next hother =>
    obtain ⟨rest, hrest⟩ := List.head?_eq_some_iff.1 h
    exact absurd hrest (hother rest)

theorem spell_reference_of_not_bracket (h : className.toList.head? ≠ some '[') :
    (reference className).spell = 'L' :: (className.toList.map dotToSlash ++ [';']) := by
  show spellReference className.toList = _
  unfold spellReference
  split
  next hname => exact absurd (by rw [hname]; rfl) h
  · rfl

/-- The name of a reference is its text, or what stands between `L` and `;` with dots for slashes. -/
theorem Spells.reference_cases (h : Spells text (reference className)) :
    (text.head? = some '[' ∧ className.toList = text) ∨
      ∃ name, ';' ∉ name ∧ text = 'L' :: (name ++ [';']) ∧
        className.toList = name.map slashToDot := by
  generalize hkind : reference className = kind at h
  cases h with
  | @«class» name h =>
    cases hkind
    exact .inr ⟨name, h, rfl, String.toList_ofList⟩
  | array h =>
    cases hkind
    exact .inl ⟨rfl, String.toList_ofList⟩
  | _ => cases hkind

/-- What begins with a bracket is the name of an array. -/
theorem Spells.eq_reference (h : Spells text kind) (hbracket : text.head? = some '[') :
    kind = reference (String.ofList text) := by
  cases h with
  | array h => rfl
  | _ => cases hbracket

/-- A class name that was read between `L` and `;` has no character that its descriptor would not
carry, except perhaps a bracket at the front. -/
theorem fitsDescriptor_of_map (hname : ';' ∉ name) (hclass : className.toList = name.map slashToDot)
    (hbracket : className.toList.head? ≠ some '[') : FitsDescriptor className := by
  refine .inr ⟨hbracket, ?_, ?_⟩
  · rw [hclass, mem_map_slashToDot_iff (by decide) (by decide)]
    exact hname
  · rw [hclass]
    exact slash_not_mem_map_slashToDot name

/-- **A reference is read from its descriptor iff its name fits.** -/
theorem spells_spell_reference_iff :
    Spells (reference className).spell (reference className) ↔ FitsDescriptor className := by
  by_cases hbracket : className.toList.head? = some '['
  · rw [spell_reference_of_bracket hbracket]
    constructor
    · intro h
      exact .inl ⟨hbracket, _, ofChars_eq_ok_iff.2 h⟩
    · rintro (⟨-, kind, hkind⟩ | ⟨hne, -⟩)
      · have h := ofChars_eq_ok_iff.1 hkind
        have hreference := h.eq_reference hbracket
        rw [String.ofList_toList] at hreference
        exact hreference ▸ h
      · exact absurd hbracket hne
  · rw [spell_reference_of_not_bracket hbracket]
    constructor
    · intro h
      rcases h.reference_cases with ⟨hhead, -⟩ | ⟨name, hname, -, hclass⟩
      · cases hhead
      · exact fitsDescriptor_of_map hname hclass hbracket
    · rintro (⟨hhead, -⟩ | ⟨-, hsemicolon, hslash⟩)
      · exact absurd hhead hbracket
      · have hname : ';' ∉ className.toList.map dotToSlash := by
          rw [mem_map_dotToSlash_iff (by decide) (by decide)]
          exact hsemicolon
        have h := Spells.class hname
        rw [map_slashToDot_map_dotToSlash hslash, String.ofList_toList] at h
        exact h

/-- A reference that was read is read again from its descriptor, unless it looks like an array and
is none. -/
theorem Spells.fitsDescriptor_iff (h : Spells text (reference className)) :
    FitsDescriptor className ↔
      (className.toList.head? = some '[' → ∃ kind, ofDescriptor className = .ok kind) := by
  constructor
  · rintro (⟨-, hread⟩ | ⟨hne, -⟩) hbracket
    · exact hread
    · exact absurd hbracket hne
  · intro himp
    by_cases hbracket : className.toList.head? = some '['
    · exact .inl ⟨hbracket, himp hbracket⟩
    · rcases h.reference_cases with ⟨hhead, hclass⟩ | ⟨name, hname, -, hclass⟩
      · exact absurd (hclass ▸ hhead) hbracket
      · exact fitsDescriptor_of_map hname hclass hbracket

/-! ### Lengths -/

/-- A text of a kind is longer than the one that is written for the kind, or as long, and then the
kind is read from what is written. -/
theorem Spells.spells_spell_or_length_lt (h : Spells text kind) :
    (Spells kind.spell kind ∧ kind.spell.length = text.length) ∨
      kind.spell.length < text.length := by
  have hspelled := h
  cases h with
  | @«class» name h =>
    generalize hkind : String.ofList (name.map slashToDot) = className
    have hclass : className.toList = name.map slashToDot := by rw [← hkind, String.toList_ofList]
    by_cases hbracket : className.toList.head? = some '['
    · right
      rw [spell_reference_of_bracket hbracket, hclass]
      simp only [List.length_map, List.length_cons, List.length_append, List.length_nil]
      omega
    · left
      refine ⟨spells_spell_reference_iff.2 (fitsDescriptor_of_map h hclass hbracket), ?_⟩
      rw [spell_reference_of_not_bracket hbracket, hclass]
      simp
  | @array element kind h =>
    left
    rw [spell_reference_of_bracket (by rw [String.toList_ofList]; rfl), String.toList_ofList]
    exact ⟨hspelled, rfl⟩
  | _ => exact .inl ⟨hspelled, rfl⟩

/-- **No text of a kind is shorter than the one that is written for it.** -/
theorem Spells.length_spell_le (h : Spells text kind) : kind.spell.length ≤ text.length := by
  rcases h.spells_spell_or_length_lt with ⟨-, heq⟩ | hlt
  · exact heq.le
  · exact hlt.le

/-- A kind with a text as short as the one that is written for it is read from the latter. -/
theorem Spells.spells_spell (h : Spells text kind) (hlength : text.length ≤ kind.spell.length) :
    Spells kind.spell kind :=
  (h.spells_spell_or_length_lt.resolve_right hlength.not_gt).1

variable {texts : List (List Char)} {kinds : List Kind}

theorem exists_spells_of_mem (h : List.Forall₂ Spells texts kinds) (hmem : kind ∈ kinds) :
    ∃ text ∈ texts, Spells text kind := by
  induction h with
  | nil => cases hmem
  | @cons text _ _ _ htext _ ih =>
    rcases List.mem_cons.1 hmem with rfl | hmem
    · exact ⟨text, List.mem_cons_self, htext⟩
    · obtain ⟨text, hin, hspells⟩ := ih hmem
      exact ⟨text, .tail _ hin, hspells⟩

theorem length_flatMap_spell_le (h : List.Forall₂ Spells texts kinds) :
    (kinds.flatMap spell).length ≤ texts.flatten.length := by
  induction h with
  | nil => exact le_rfl
  | cons htext _ ih =>
    rw [List.flatMap_cons, List.flatten_cons, List.length_append, List.length_append]
    exact Nat.add_le_add htext.length_spell_le ih

/-- Kinds with texts that are together as short as what is written for them are all read from what
is written. -/
theorem spells_spell_of_mem (h : List.Forall₂ Spells texts kinds)
    (hlength : texts.flatten.length ≤ (kinds.flatMap spell).length) :
    ∀ kind ∈ kinds, Spells kind.spell kind := by
  induction h with
  | nil => nofun
  | @cons text kind texts kinds htext htexts ih =>
    have hhead := htext.length_spell_le
    have htail := length_flatMap_spell_le htexts
    rw [List.flatMap_cons, List.flatten_cons, List.length_append, List.length_append] at hlength
    rw [List.forall_mem_cons]
    exact ⟨htext.spells_spell (by omega), ih (by omega)⟩

/-- What is written for a kind that is no reference is always read. -/
theorem spells_spell_of_not_isReference (h : kind.isReference = false) :
    Spells kind.spell kind := by
  cases kind with
  | reference => cases h
  | _ => constructor

/-- Kinds are read from their descriptors iff the names of their references fit. -/
theorem forall_spells_spell_iff : (∀ kind ∈ kinds, Spells kind.spell kind) ↔
    ∀ className, .reference className ∈ kinds → FitsDescriptor className := by
  constructor
  · intro h className hmem
    exact spells_spell_reference_iff.1 (h _ hmem)
  · intro h kind hmem
    cases kind with
    | reference className => exact spells_spell_reference_iff.2 (h className hmem)
    | _ => exact spells_spell_of_not_isReference rfl

/-- A closing parenthesis in a descriptor stands in a class name. -/
theorem closing_mem_spell_reference_iff :
    ')' ∈ (reference className).spell ↔ ')' ∈ className.toList := by
  by_cases hbracket : className.toList.head? = some '['
  · rw [spell_reference_of_bracket hbracket]
  · rw [spell_reference_of_not_bracket hbracket]
    simp [mem_map_dotToSlash_iff]

theorem closing_not_mem_flatMap_spell_iff : ')' ∉ kinds.flatMap spell ↔
    ∀ className, .reference className ∈ kinds → ')' ∉ className.toList := by
  rw [List.mem_flatMap]
  constructor
  · intro h className hmem hclosing
    exact h ⟨_, hmem, closing_mem_spell_reference_iff.2 hclosing⟩
  · rintro h ⟨kind, hmem, hclosing⟩
    cases kind with
    | reference className => exact h className hmem (closing_mem_spell_reference_iff.1 hclosing)
    | _ => simp [spell] at hclosing

/-- A name that was read has a closing parenthesis only if the text has one. -/
theorem Spells.closing_mem (h : Spells text (reference className)) (hmem : ')' ∈ className.toList) :
    ')' ∈ text := by
  rcases h.reference_cases with ⟨-, hclass⟩ | ⟨name, -, rfl, hclass⟩
  · exact hclass ▸ hmem
  · rw [hclass, mem_map_slashToDot_iff (by decide) (by decide)] at hmem
    exact .tail _ (List.mem_append_left _ hmem)

end Kind

namespace Signature

open Kind (Spells FitsDescriptor)

/-! ### Results -/

variable {text : List Char} {returns : Option Kind}

theorem SpellsReturns.length_spell_le (h : SpellsReturns text returns) :
    (spellReturns returns).length ≤ text.length := by
  cases h with
  | void => exact le_rfl
  | kind h => exact h.length_spell_le

theorem SpellsReturns.spells_spell (h : SpellsReturns text returns)
    (hlength : text.length ≤ (spellReturns returns).length) :
    ∀ kind ∈ returns, Spells kind.spell kind := by
  cases h with
  | void => nofun
  | kind h =>
    rintro _ ⟨⟩
    exact h.spells_spell hlength

theorem spellsReturns_spell (h : ∀ kind ∈ returns, Spells kind.spell kind) :
    SpellsReturns (spellReturns returns) returns := by
  cases returns with
  | none => exact .void
  | some kind => exact .kind (h kind rfl)

/-! ### Signatures -/

variable {signature : Signature} {descriptor : String}

/-- The kinds of the arguments and of the result. -/
def kinds (signature : Signature) : List Kind :=
  signature.args ++ signature.returns.toList

/-- **A signature is read from its descriptor iff its kinds are and no argument holds a closing
parenthesis.** -/
theorem ofChars_spell_iff : ofChars signature.spell = .ok signature ↔
    (∀ kind ∈ signature.kinds, Spells kind.spell kind) ∧
      ')' ∉ signature.args.flatMap Kind.spell := by
  rw [ofChars_eq_ok_iff, kinds, List.forall_mem_append]
  constructor
  · rintro ⟨texts, result, hargs, hreturns, hclosing, heq⟩
    have hbody : signature.args.flatMap Kind.spell ++ ')' :: spellReturns signature.returns =
        texts.flatten ++ ')' :: result := List.tail_eq_of_cons_eq heq
    -- Neither part can be longer than what it was read from, so both are as long.
    have hargsLength := Kind.length_flatMap_spell_le hargs
    have hreturnsLength := hreturns.length_spell_le
    have hlength := congrArg List.length hbody
    simp only [List.length_append, List.length_cons] at hlength
    have hsame := List.append_inj_left hbody (by omega)
    refine ⟨⟨Kind.spells_spell_of_mem hargs (by omega), fun kind hmem => ?_⟩, hsame ▸ hclosing⟩
    exact hreturns.spells_spell (by omega) kind (Option.mem_toList.1 hmem)
  · rintro ⟨⟨hargs, hreturns⟩, hclosing⟩
    refine ⟨signature.args.map Kind.spell, spellReturns signature.returns, ?_, ?_, hclosing, rfl⟩
    · rw [List.forall₂_map_left_iff, List.forall₂_same]
      exact hargs
    · exact spellsReturns_spell fun kind hmem => hreturns kind (Option.mem_toList.2 hmem)

/-- A signature is read from its descriptor iff the names in it fit and no argument has a closing
parenthesis in its name. -/
theorem ofDescriptor_spell_iff : ofDescriptor signature.descriptor = .ok signature ↔
    (∀ className, .reference className ∈ signature.kinds → FitsDescriptor className) ∧
      ∀ className, .reference className ∈ signature.args → ')' ∉ className.toList := by
  rw [ofDescriptor, Signature.descriptor, String.toList_ofList, ofChars_spell_iff,
    Kind.forall_spells_spell_iff, Kind.closing_not_mem_flatMap_spell_iff]

variable (h : ofDescriptor descriptor = .ok signature) {className : String}
include h

/-- What is read as a reference in a signature has a text of its own. -/
theorem exists_spells_of_ofDescriptor (hmem : .reference className ∈ signature.kinds) :
    ∃ text, Spells text (.reference className) := by
  obtain ⟨texts, result, hargs, hreturns, -⟩ := ofChars_eq_ok_iff.1 h
  rcases List.mem_append.1 hmem with hmem | hmem
  · obtain ⟨text, -, htext⟩ := Kind.exists_spells_of_mem hargs hmem
    exact ⟨text, htext⟩
  · rw [Option.mem_toList] at hmem
    rw [hmem] at hreturns
    cases hreturns with
    | kind htext => exact ⟨result, htext⟩

/-- The first closing parenthesis ends the arguments, so it is in none of them. -/
theorem closing_not_mem_of_ofDescriptor (hmem : .reference className ∈ signature.args) :
    ')' ∉ className.toList := by
  obtain ⟨texts, result, hargs, -, hclosing, -⟩ := ofChars_eq_ok_iff.1 h
  obtain ⟨text, hin, htext⟩ := Kind.exists_spells_of_mem hargs hmem
  intro hname
  exact hclosing (List.mem_flatten_of_mem hin (htext.closing_mem hname))

/-- **A signature that was read is read again from its descriptor iff every name that looks like an
array is one.** -/
theorem reread_iff : ofDescriptor signature.descriptor = .ok signature ↔
    ∀ className, .reference className ∈ signature.kinds → className.toList.head? = some '[' →
      ∃ kind, Kind.ofDescriptor className = .ok kind := by
  have hfits : ∀ className, .reference className ∈ signature.kinds → (FitsDescriptor className ↔
      (className.toList.head? = some '[' → ∃ kind, Kind.ofDescriptor className = .ok kind)) := by
    intro className hmem
    obtain ⟨text, htext⟩ := exists_spells_of_ofDescriptor h hmem
    exact htext.fitsDescriptor_iff
  rw [ofDescriptor_spell_iff]
  constructor
  · rintro ⟨hall, -⟩ className hmem
    exact (hfits className hmem).1 (hall className hmem)
  · intro hall
    refine ⟨fun className hmem => (hfits className hmem).2 (hall className hmem), ?_⟩
    exact fun className hmem => closing_not_mem_of_ofDescriptor h hmem

end Signature

/-- **A kind that was read is read again from its descriptor iff it does not look like an array, or
is one.** -/
theorem Kind.reread_iff {descriptor : String} {kind : Kind}
    (h : Kind.ofDescriptor descriptor = .ok kind) :
    Kind.ofDescriptor kind.descriptor = .ok kind ↔
      ∀ className, kind = .reference className → className.toList.head? = some '[' →
        ∃ element, Kind.ofDescriptor className = .ok element := by
  rw [ofDescriptor, Kind.descriptor, String.toList_ofList, ofChars_eq_ok_iff]
  cases kind with
  | reference className =>
    rw [spells_spell_reference_iff, (ofChars_eq_ok_iff.1 h).fitsDescriptor_iff]
    constructor
    · rintro himp _ ⟨⟩
      exact himp
    · intro himp
      exact himp className rfl
  | _ => exact iff_of_true (spells_spell_of_not_isReference rfl) nofun

/-! ### Calls -/

/-- **The signatures that survive their descriptor.** The signature of a call is read from the
descriptor of the call iff every class name in it either is the descriptor of an array, or does not
begin with a bracket and has neither a semicolon nor a slash, and no class name among the arguments
has a closing parenthesis. -/
theorem Call.ofDescriptor_descriptor_iff (call : Call) :
    Signature.ofDescriptor call.descriptor = .ok ⟨call.args, call.returns⟩ ↔
      (∀ className : String, .reference className ∈ call.args ++ call.returns.toList →
        (className.toList.head? = some '[' ∧ ∃ kind, Kind.ofDescriptor className = .ok kind) ∨
          (className.toList.head? ≠ some '[' ∧ ';' ∉ className.toList ∧
            '/' ∉ className.toList)) ∧
      ∀ className : String, .reference className ∈ call.args → ')' ∉ className.toList :=
  Signature.ofDescriptor_spell_iff

/-- **When a descriptor is stable.** What was read from a descriptor, be it a signature or a kind,
is read the same from the descriptor written for it, iff every class name in it that begins with a
bracket is the descriptor of an array. -/
theorem Call.reread_iff_brackets (descriptor : String) (call : Call) (kind : Kind) :
    (Signature.ofDescriptor descriptor = .ok ⟨call.args, call.returns⟩ →
      (Signature.ofDescriptor call.descriptor = .ok ⟨call.args, call.returns⟩ ↔
        ∀ className : String, .reference className ∈ call.args ++ call.returns.toList →
          className.toList.head? = some '[' → ∃ kind, Kind.ofDescriptor className = .ok kind)) ∧
    (Kind.ofDescriptor descriptor = .ok kind →
      (Kind.ofDescriptor kind.descriptor = .ok kind ↔
        ∀ className : String, kind = .reference className →
          className.toList.head? = some '[' →
            ∃ element, Kind.ofDescriptor className = .ok element)) :=
  ⟨fun h => Signature.reread_iff h, fun h => Kind.reread_iff h⟩

/-- A name between `L` and `;` that is an array's descriptor becomes this array. -/
theorem Call.reread_iff_brackets_array :
    let call : Call := ⟨.special, "demo.Page", "<init>", [.reference "[I", .int],
      some (.reference "a)b")⟩
    (Signature.ofDescriptor "(L[I;I)La)b;" = .ok ⟨call.args, call.returns⟩ ∧
      Signature.ofDescriptor call.descriptor = .ok ⟨call.args, call.returns⟩) ∧
    Kind.ofDescriptor "L[I;" = .ok (.reference "[I") ∧
      Kind.ofDescriptor (Kind.reference "[I").descriptor = .ok (.reference "[I") := by
  intro call
  have hbracket : Kind.Spells ("L[I;").toList (.reference "[I") :=
    @Kind.Spells.class ['[', 'I'] (by decide)
  have hresult : Kind.Spells ("La)b;").toList (.reference "a)b") :=
    @Kind.Spells.class ['a', ')', 'b'] (by decide)
  have hcall : Signature.ofDescriptor "(L[I;I)La)b;" = .ok ⟨call.args, call.returns⟩ :=
    Signature.ofChars_eq_ok_iff.2 ⟨_, _, .cons hbracket (.cons .int .nil), .kind hresult,
      by decide, by decide⟩
  have hkind : Kind.ofDescriptor "L[I;" = .ok (.reference "[I") :=
    Kind.ofChars_eq_ok_iff.2 hbracket
  have harray : Kind.ofDescriptor "[I" = .ok (.reference "[I") :=
    Kind.ofChars_eq_ok_iff.2 (.array .int)
  refine ⟨⟨hcall, ((reread_iff_brackets _ call .int).1 hcall).2 ?_⟩, hkind,
    ((reread_iff_brackets _ call _).2 hkind).2 ?_⟩
  · intro className hmem hhead
    have hnames : className = "[I" ∨ className = "a)b" := by simpa [call] using hmem
    rcases hnames with rfl | rfl
    · exact ⟨_, harray⟩
    · exact absurd hhead (by decide)
  · rintro _ ⟨⟩ -
    exact ⟨_, harray⟩

/-- A class name may look like an array without being one. Then it is refused when it is read again,
or it is read as an array together with what follows. -/
theorem Call.not_reread_bracket :
    let call : Call := ⟨.virtual, "demo.Page", "mark", [.reference "[x"], none⟩
    let misread : Call := ⟨.virtual, "demo.Page", "mark", [.reference "[", .int], none⟩
    (Signature.ofDescriptor "(L[x;)V" = .ok ⟨call.args, call.returns⟩ ∧
      call.descriptor = "([x)V" ∧
      Signature.ofDescriptor "([x)V" = .error ⟨"x", .unknownCharacter 'x'⟩) ∧
    (Signature.ofDescriptor "(L[;I)V" = .ok ⟨misread.args, misread.returns⟩ ∧
      misread.descriptor = "([I)V" ∧
      Signature.ofDescriptor "([I)V" = .ok ⟨[.reference "[I"], none⟩) ∧
    Kind.ofDescriptor "L[x;" = .ok (.reference "[x") ∧ (Kind.reference "[x").descriptor = "[x" ∧
      Kind.ofDescriptor "[x" = .error ⟨"x", .unknownCharacter 'x'⟩ := by
  refine ⟨⟨?_, ?_, ?_⟩, ⟨?_, ?_, ?_⟩, by decide, by decide, by decide⟩
  all_goals cbv

end FieldFlow
