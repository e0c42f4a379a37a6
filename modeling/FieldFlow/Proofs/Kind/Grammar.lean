import FieldFlow.Kind.Descriptor
import Mathlib.Data.List.Forall2
import Mathlib.Data.List.TakeWhile
import Mathlib.Data.Set.Function

/-!
# The grammar of descriptors

Which texts are descriptors, said without the functions that read them, and what each of them
stands for.

## Main Definitions

* `Kind.Spells`, `Kind.IsDescriptor`: a text is a descriptor of a kind, or of some kind
* `Signature.SpellsReturns`: a text is a descriptor of the result of a method

## Main Statements

* `Kind.read_eq_ok_iff`: reading takes one descriptor from the front of its input
* `Kind.Spells.append_inj`: no descriptor begins another one
* `Kind.flatten_injOn`: descriptors one after another can be told apart
* `Signature.ofDescriptor_iff_spelled`: the grammar is what is read, for kinds and for signatures

## Design Notes

A class name may hold any character but a semicolon, brackets and parentheses included. So a text
has one kind, but a kind may have several texts: a name with dots for slashes, or an array's name
between `L` and `;`.
-/

namespace FieldFlow

/-! ### Characters up to a mark -/

namespace Kind

variable {mark c : Char} {chars after : List Char}

theorem bne_of_not_mem (h : mark ∉ chars) (c : Char) (hc : c ∈ chars) : (c != mark) = true := by
  rw [bne_iff_ne]
  rintro rfl
  exact h hc

theorem takeWhile_append_mark (h : mark ∉ chars) (after : List Char) :
    (chars ++ mark :: after).takeWhile (· != mark) = chars := by
  rw [List.takeWhile_append_of_pos (bne_of_not_mem h), List.takeWhile_cons_of_neg (by simp),
    List.append_nil]

theorem dropWhile_append_mark (h : mark ∉ chars) (after : List Char) :
    (chars ++ mark :: after).dropWhile (· != mark) = mark :: after := by
  rw [List.dropWhile_append_of_pos (bne_of_not_mem h), List.dropWhile_cons_of_neg (by simp)]

/-- A list in which a mark is found is split by the first one. -/
theorem eq_append_mark (h : chars.dropWhile (· != mark) = c :: after) :
    mark ∉ chars.takeWhile (· != mark) ∧
      chars = chars.takeWhile (· != mark) ++ mark :: after := by
  have hc : mark = c := by
    have hhead := List.head?_dropWhile_not (· != mark) chars
    rw [h] at hhead
    exact (bne_eq_false_iff_eq.1 hhead).symm
  refine ⟨fun hmem => ?_, ?_⟩
  · exact bne_iff_ne.1 (List.mem_takeWhile_imp (p := (· != mark)) hmem) rfl
  · have hsplit := List.takeWhile_append_dropWhile (p := (· != mark)) (l := chars)
    rw [h, ← hc] at hsplit
    exact hsplit.symm

/-! ### Descriptors of kinds -/

variable {input text other rest : List Char} {kind kind' : Kind}

/-- The text is a descriptor of the kind. -/
inductive Spells : List Char → Kind → Prop
  | boolean : Spells ['Z'] boolean
  | byte : Spells ['B'] byte
  | char : Spells ['C'] char
  | short : Spells ['S'] short
  | int : Spells ['I'] int
  | long : Spells ['J'] long
  | float : Spells ['F'] float
  | double : Spells ['D'] double
  | class {name : List Char} (h : ';' ∉ name) :
      Spells ('L' :: (name ++ [';'])) (reference (String.ofList (name.map slashToDot)))
  | array {element : List Char} {kind : Kind} (h : Spells element kind) :
      Spells ('[' :: element) (reference (String.ofList ('[' :: element)))

theorem Spells.ne_nil (h : Spells text kind) : text ≠ [] := by
  cases h <;> exact List.cons_ne_nil _ _

/-- The text is a descriptor. -/
def IsDescriptor (text : List Char) : Prop :=
  ∃ kind, Spells text kind

/-- What does not begin with a bracket is read as the type of an element. -/
theorem read_of_head?_ne (h : input.head? ≠ some '[') : read input = readElement input := by
  have hdrop : input.dropWhile (· == '[') = input := by
    cases input with
    | nil => rfl
    | cons c input => exact List.dropWhile_cons_of_neg (by simpa using h)
  rw [read, hdrop]
  split
  next error herror => exact herror.symm
  next kind rest hread => rw [if_neg h, hread]

/-- After a bracket the type of the elements is read, and all that was taken is the array's name. -/
theorem read_bracket (input : List Char) : read ('[' :: input) =
    match read input with
    | .error error => .error error
    | .ok (_, rest) =>
      .ok (reference (String.ofList ('[' :: input.take (input.length - rest.length))), rest) := by
  have hread : ∀ {kind rest}, readElement (input.dropWhile (· == '[')) = .ok (kind, rest) →
      ('[' :: input).length - rest.length = input.length - rest.length + 1 := by
    intro kind rest h
    have hlt := length_lt_of_readElement h
    have hle := (List.dropWhile_suffix (l := input) (· == '[')).length_le
    rw [List.length_cons]
    omega
  rw [read, read, List.dropWhile_cons_of_pos (by decide)]
  cases h : readElement (input.dropWhile (· == '[')) with
  | error error => rfl
  | ok found =>
    obtain ⟨kind, rest⟩ := found
    dsimp only
    rw [hread h, List.take_succ_cons, List.head?_cons, if_pos rfl]
    split_ifs <;> rfl

/-- **A descriptor is taken from the front of the input**, whatever follows it. -/
theorem Spells.read_append (h : Spells text kind) (rest : List Char) :
    read (text ++ rest) = .ok (kind, rest) := by
  induction h with
  | @«class» name h =>
    rw [read_of_head?_ne (by simp)]
    simp only [List.cons_append, List.append_assoc, List.nil_append, readElement,
      dropWhile_append_mark h, takeWhile_append_mark h]
  | @array element kind h ih =>
    rw [List.cons_append, read_bracket, ih]
    simp
  | _ => rfl

/-- What is read as the type of an element begins with a descriptor of it. -/
theorem exists_of_readElement (h : readElement input = .ok (kind, rest)) :
    ∃ text, Spells text kind ∧ input = text ++ rest := by
  unfold readElement at h
  split at h
  case h_10 body =>
    split at h
    · contradiction
    next c after hdrop =>
      obtain ⟨hname, hbody⟩ := eq_append_mark hdrop
      cases h
      refine ⟨_, .class hname, ?_⟩
      rw [List.cons_append, List.append_assoc, List.singleton_append, ← hbody]
  case h_1 => contradiction
  case h_11 => contradiction
  all_goals cases h
  · exact ⟨_, .boolean, rfl⟩
  · exact ⟨_, .byte, rfl⟩
  · exact ⟨_, .char, rfl⟩
  · exact ⟨_, .short, rfl⟩
  · exact ⟨_, .int, rfl⟩
  · exact ⟨_, .long, rfl⟩
  · exact ⟨_, .float, rfl⟩
  · exact ⟨_, .double, rfl⟩

/-- **What is read begins with a descriptor of it.** -/
theorem exists_of_read (h : read input = .ok (kind, rest)) :
    ∃ text, Spells text kind ∧ input = text ++ rest := by
  induction input generalizing kind rest with
  | nil => exact exists_of_readElement h
  | cons c input ih =>
    by_cases hc : c = '['
    · subst hc
      rw [read_bracket] at h
      split at h
      · contradiction
      next element after hread =>
        cases h
        obtain ⟨text, htext, rfl⟩ := ih hread
        refine ⟨'[' :: text, ?_, rfl⟩
        rw [List.length_append, Nat.add_sub_cancel, List.take_left]
        exact .array htext
    · rw [read_of_head?_ne (by simpa using hc)] at h
      exact exists_of_readElement h

/-- **What can be read is a descriptor with a rest behind it.** -/
theorem read_eq_ok_iff :
    read input = .ok (kind, rest) ↔ ∃ text, Spells text kind ∧ input = text ++ rest := by
  constructor
  · exact exists_of_read
  · rintro ⟨text, htext, rfl⟩
    exact htext.read_append rest

/-- **A whole text is read as a kind iff it is a descriptor of this kind.** -/
theorem ofChars_eq_ok_iff : ofChars input = .ok kind ↔ Spells input kind := by
  constructor
  · intro h
    unfold ofChars at h
    split at h
    next => contradiction
    next found hread =>
      obtain ⟨text, htext, rfl⟩ := read_eq_ok_iff.1 hread
      cases h
      rw [List.append_nil]
      exact htext
    next => contradiction
  · intro h
    have hread := h.read_append []
    rw [List.append_nil] at hread
    rw [ofChars, hread]

/-- **No descriptor begins another one.** -/
theorem Spells.append_inj {rest' : List Char} (h : Spells text kind)
    (h' : Spells other kind') (heq : text ++ rest = other ++ rest') :
    text = other ∧ kind = kind' ∧ rest = rest' := by
  have hread := h.read_append rest
  rw [heq, h'.read_append rest'] at hread
  cases hread
  exact ⟨List.append_cancel_right heq, rfl, rfl⟩

/-! ### Descriptors one after another -/

variable {kinds : List Kind}

theorem readAll_nil : readAll [] = .ok [] := by
  rw [readAll]

/-- Reading goes on after a descriptor at the front. -/
theorem Spells.readAll_append (h : Spells text kind) (rest : List Char) :
    readAll (text ++ rest) =
      match readAll rest with
      | .error error => .error error
      | .ok kinds => .ok (kind :: kinds) := by
  have hread := h.read_append rest
  generalize hinput : text ++ rest = input at hread
  cases input with
  | nil => cases hread
  | cons c cs =>
    rw [readAll]
    split
    next error herror => cases hread.symm.trans herror
    next found after hfound =>
      cases hread.symm.trans hfound
      rfl

/-- **Descriptors one after another are read as the kinds of each**, and nothing else is read as
these kinds. -/
theorem readAll_eq_ok_iff : readAll input = .ok kinds ↔
    ∃ texts, List.Forall₂ Spells texts kinds ∧ input = texts.flatten := by
  constructor
  · intro h
    fun_induction readAll input generalizing kinds with
    | case1 =>
      cases h
      exact ⟨[], .nil, rfl⟩
    | case2 => cases h
    | case3 => cases h
    | case4 c cs kind rest hread _ kinds hkinds ih =>
      cases h
      obtain ⟨text, htext, hinput⟩ := read_eq_ok_iff.1 hread
      obtain ⟨texts, htexts, rfl⟩ := ih hkinds
      exact ⟨text :: texts, .cons htext htexts, hinput⟩
  · rintro ⟨texts, htexts, rfl⟩
    induction htexts with
    | nil => exact readAll_nil
    | cons htext _ ih => rw [List.flatten_cons, htext.readAll_append, ih]

/-- **Descriptors one after another can be told apart.** -/
theorem flatten_injOn : Set.InjOn List.flatten {texts | ∀ text ∈ texts, IsDescriptor text} := by
  intro texts htexts others hothers heq
  induction texts generalizing others with
  | nil =>
    cases others with
    | nil => rfl
    | cons other others =>
      obtain ⟨kind, hother⟩ := hothers other List.mem_cons_self
      exact absurd (List.append_eq_nil_iff.1 heq.symm).1 hother.ne_nil
  | cons text texts ih =>
    obtain ⟨kind, htext⟩ := htexts text List.mem_cons_self
    cases others with
    | nil => exact absurd (List.append_eq_nil_iff.1 heq).1 htext.ne_nil
    | cons other others =>
      obtain ⟨kind', hother⟩ := hothers other List.mem_cons_self
      obtain ⟨rfl, -, hrest⟩ := htext.append_inj hother heq
      rw [ih (fun _ hmem => htexts _ (.tail _ hmem)) (fun _ hmem => hothers _ (.tail _ hmem)) hrest]

end Kind

/-! ### Descriptors of signatures -/

namespace Signature

open Kind (Spells)

/-- The text is a descriptor of the result of a method, which may be void. -/
inductive SpellsReturns : List Char → Option Kind → Prop
  | void : SpellsReturns ['V'] none
  | kind {text : List Char} {kind : Kind} (h : Spells text kind) : SpellsReturns text (some kind)

variable {input result : List Char} {returns : Option Kind} {signature : Signature}

theorem readReturns_eq_ok_iff : readReturns input = .ok returns ↔ SpellsReturns input returns := by
  constructor
  · intro h
    unfold readReturns at h
    split at h
    next =>
      cases h
      exact .void
    next =>
      split at h
      next => contradiction
      next kind hkind =>
        cases h
        exact .kind (Kind.ofChars_eq_ok_iff.1 hkind)
  · intro h
    cases h with
    | void => rfl
    | kind h =>
      rw [readReturns, Kind.ofChars_eq_ok_iff.2 h]
      -- No kind is written as a void result.
      rintro rfl
      cases h

/-- **A whole text is read as a signature iff it is a descriptor of this signature**: the first
closing parenthesis ends the arguments. -/
theorem ofChars_eq_ok_iff : ofChars input = .ok signature ↔
    ∃ texts result, List.Forall₂ Spells texts signature.args ∧
      SpellsReturns result signature.returns ∧ ')' ∉ texts.flatten ∧
      input = '(' :: (texts.flatten ++ ')' :: result) := by
  constructor
  · intro h
    unfold ofChars at h
    split at h
    next body =>
      split at h
      next => contradiction
      next c result hdrop =>
        obtain ⟨hclosing, hbody⟩ := Kind.eq_append_mark hdrop
        split at h
        next => contradiction
        next args hargs =>
          split at h
          next => contradiction
          next returns hreturns =>
            cases h
            obtain ⟨texts, htexts, hflat⟩ := Kind.readAll_eq_ok_iff.1 hargs
            rw [hflat] at hclosing hbody
            exact ⟨texts, result, htexts, readReturns_eq_ok_iff.1 hreturns, hclosing,
              congrArg _ hbody⟩
    next => contradiction
  · rintro ⟨texts, result, htexts, hresult, hclosing, rfl⟩
    have hargs := Kind.readAll_eq_ok_iff.2 ⟨texts, htexts, rfl⟩
    rw [ofChars, Kind.dropWhile_append_mark hclosing, Kind.takeWhile_append_mark hclosing]
    simp only [hargs, readReturns_eq_ok_iff.2 hresult]

/-- **Descriptors are read exactly by their grammar.** A text is read as a kind iff it is a
descriptor of this kind. It is read as a signature iff descriptors of the arguments, none of them
with a closing parenthesis, stand between parentheses before a descriptor of the result. The
descriptors of which a text is made up are determined by the text. -/
theorem ofDescriptor_iff_spelled (text : String) (kind : Kind) (signature : Signature) :
    (Kind.ofDescriptor text = .ok kind ↔ Spells text.toList kind) ∧
    (ofDescriptor text = .ok signature ↔
      ∃ texts result, List.Forall₂ Spells texts signature.args ∧
        SpellsReturns result signature.returns ∧ ')' ∉ texts.flatten ∧
        text.toList = '(' :: (texts.flatten ++ ')' :: result)) ∧
    Set.InjOn List.flatten {texts | ∀ text ∈ texts, Kind.IsDescriptor text} :=
  ⟨Kind.ofChars_eq_ok_iff, ofChars_eq_ok_iff, Kind.flatten_injOn⟩

/-- Class names may begin with a bracket or, in the result, hold a closing parenthesis. -/
theorem ofDescriptor_iff_spelled_awkward :
    ofDescriptor "(J[[La/b;L[I;)La)b/c;" =
      .ok ⟨[.long, .reference "[[La/b;", .reference "[I"], some (.reference "a)b.c")⟩ := by
  have hnested : Spells ("[[La/b;").toList (.reference "[[La/b;") :=
    .array (.array (@Spells.class ['a', '/', 'b'] (by decide)))
  have hbracket : Spells ("L[I;").toList (.reference "[I") :=
    @Spells.class ['[', 'I'] (by decide)
  have hresult : Spells ("La)b/c;").toList (.reference "a)b.c") :=
    @Spells.class ['a', ')', 'b', '/', 'c'] (by decide)
  exact (ofDescriptor_iff_spelled _ .int _).2.1.2 ⟨_, _,
    .cons .long (.cons hnested (.cons hbracket .nil)), .kind hresult, by decide, by decide⟩

end Signature

end FieldFlow
