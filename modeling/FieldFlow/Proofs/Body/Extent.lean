import FieldFlow.Proofs.Body.Json
import FieldFlow.Proofs.Json.Extent

/-!
# Bodies of short texts

Bodies that are read from a text whose length can be written in a container can be written in one,
with all of their lengths.

## Main Definitions

* `Json.Fitting`: a reader of JSON values makes only what can be written from short ones

## Main Statements

* `Body.fits_of_ofText`: the bodies of a short text can be written

## Design Notes

The parts of a JSON value have no greater extent than the value. So every reader of a part passes
the bound on, and the strings and arrays at the bottom are bounded by the whole text.
-/

namespace FieldFlow

open Bytes (TextFits ListFits OptionFits)

namespace Json

variable {α β : Type} {item : Json → Option α} {fits : α → Prop} {json part : Json}
variable {items parts : List Json} {members : List (String × Json)} {names optional : List String}
variable {name text : String}

/-- The lengths of all strings and arrays in the value can be written. -/
def Short (json : Json) : Prop :=
  json.extent < 256 ^ 8

/-- What is read from a short value can be written. -/
def Fitting (fits : α → Prop) (item : Json → Option α) : Prop :=
  ∀ json value, json.Short → item json = some value → fits value

/-! ### Parts of a value -/

theorem length_le_extentAll (items : List Json) : items.length ≤ extentAll items := by
  induction items with
  | nil => exact Nat.zero_le _
  | cons item items ih =>
    rw [extentAll, List.length_cons]
    omega

theorem extent_le_of_mem (hmem : part ∈ items) : part.extent ≤ extentAll items := by
  induction items with
  | nil => cases hmem
  | cons item items ih =>
    rw [extentAll]
    rcases List.mem_cons.1 hmem with rfl | hmem
    · omega
    · have hle := ih hmem
      omega

theorem extent_le_of_mem_members (hmem : (name, part) ∈ members) :
    part.extent ≤ extentMembers members := by
  induction members with
  | nil => cases hmem
  | cons member members ih =>
    obtain ⟨first, value⟩ := member
    rw [extentMembers]
    rcases List.mem_cons.1 hmem with heq | hmem
    · cases heq
      omega
    · have hle := ih hmem
      omega

/-- The lists that are read have the length of the arrays, and each item comes from one of them. -/
theorem mapM_eq_some {f : α → Option β} {xs : List α} {ys : List β} (h : xs.mapM f = some ys) :
    ys.length = xs.length ∧ ∀ y ∈ ys, ∃ x ∈ xs, f x = some y := by
  induction xs generalizing ys with
  | nil =>
    cases h
    exact ⟨rfl, nofun⟩
  | cons x xs ih =>
    rw [List.mapM_cons] at h
    obtain ⟨y, hy, h⟩ := Option.bind_eq_some_iff.1 h
    obtain ⟨rest, hrest, h⟩ := Option.bind_eq_some_iff.1 h
    cases h
    obtain ⟨hlength, hmem⟩ := ih hrest
    refine ⟨congrArg (· + 1) hlength, List.forall_mem_cons.2 ⟨⟨x, List.mem_cons_self, hy⟩, ?_⟩⟩
    intro z hz
    obtain ⟨w, hw, heq⟩ := hmem z hz
    exact ⟨w, .tail _ hw, heq⟩

theorem fitting_text? : Fitting TextFits text? := by
  intro json value hshort h
  cases json with
  | string text =>
    cases h
    rwa [Short, extent] at hshort
  | _ => cases h

theorem Fitting.list? (hitem : Fitting fits item) : Fitting (ListFits fits) (list? item) := by
  intro json values hshort h
  cases json with
  | array items =>
    rw [Short, extent] at hshort
    obtain ⟨hlength, hmem⟩ := mapM_eq_some h
    refine ⟨?_, ?_⟩
    · rw [hlength]
      exact Nat.lt_of_le_of_lt (length_le_extentAll items) hshort
    · intro value hvalue
      obtain ⟨part, hpart, heq⟩ := hmem value hvalue
      exact hitem part value (Nat.lt_of_le_of_lt (extent_le_of_mem hpart) hshort) heq
  | _ => cases h

theorem Fitting.optional? (hitem : Fitting fits item) :
    Fitting (OptionFits fits) (optional? item) := by
  intro json value? hshort h value hvalue
  cases hvalue
  cases json with
  | null => cases h
  | _ =>
    obtain ⟨read, hread, heq⟩ := Option.map_eq_some_iff.1 h
    cases heq
    exact hitem _ _ hshort hread

theorem Fitting.map {f : α → β} {fits' : β → Prop} (hitem : Fitting fits item)
    (hf : ∀ value, fits value → fits' (f value)) :
    Fitting fits' fun json => (item json).map f := by
  intro json value hshort h
  obtain ⟨read, hread, rfl⟩ := Option.map_eq_some_iff.1 h
  exact hf read (hitem json read hshort hread)

theorem Short.of_variant? {payload? : Option Json} (hshort : json.Short)
    (h : json.variant? = some (name, payload?)) : ∀ payload ∈ payload?, payload.Short := by
  rw [variant?.eq_def] at h
  split at h
  next =>
    cases h
    nofun
  next payload =>
    cases h
    rintro _ ⟨⟩
    rw [Short, extent, extentMembers, extentMembers] at hshort
    rw [Short]
    omega
  next => cases h

theorem Short.of_record? (hshort : json.Short) (h : json.record? names optional = some parts) :
    ∀ part ∈ parts, part.Short := by
  rw [record?.eq_def] at h
  split at h
  next items =>
    split at h
    next =>
      cases h
      rw [Short, extent] at hshort
      intro part hpart
      exact Nat.lt_of_le_of_lt (extent_le_of_mem hpart) hshort
    next => cases h
  next members =>
    rw [Short, extent] at hshort
    intro part hpart
    obtain ⟨name, -, hfield⟩ := (mapM_eq_some h).2 part hpart
    rw [field?] at hfield
    split at hfield
    next found value hfilter =>
      cases hfield
      have hmem := List.mem_filter.1 (hfilter ▸ List.mem_singleton_self (found, part))
      exact Nat.lt_of_le_of_lt (extent_le_of_mem_members hmem.1) hshort
    next =>
      -- A field that is left out is null.
      split at hfield
      next =>
        cases hfield
        exact Nat.pow_pos (by decide)
      next => cases hfield
    next => cases hfield
  next => cases h

end Json

open Json (Fitting fitting_text?)

/-! ### Parts of a body -/

theorem Kind.fits_primitive? {name : String} {kind : Kind} (h : primitive? name = some kind) :
    kind.Fits := by
  rw [primitive?.eq_def] at h
  split at h
  all_goals
    cases h
  all_goals
    trivial

theorem Kind.fitting_ofJson? : Fitting Kind.Fits ofJson? := by
  intro json kind hshort h
  obtain ⟨⟨name, payload?⟩, hvariant, h⟩ := Option.bind_eq_some_iff.1 h
  have hpayload := hshort.of_variant? hvariant
  dsimp only at h
  split at h
  next payload =>
    exact (fitting_text?.map (f := reference) fun _ => id) payload kind (hpayload payload rfl) h
  next =>
    split at h
    next => exact fits_primitive? h
    next => cases h

theorem Constant.fitting_ofJson? : Fitting Constant.Fits ofJson? := by
  intro json constant hshort h
  obtain ⟨⟨name, payload?⟩, hvariant, h⟩ := Option.bind_eq_some_iff.1 h
  have hpayload := hshort.of_variant? hvariant
  dsimp only at h
  split at h
  case h_1 | h_2 | h_3 | h_4 =>
    -- Numbers have no length.
    obtain ⟨value, -, rfl⟩ := Option.map_eq_some_iff.1 h
    trivial
  case h_5 payload =>
    exact (fitting_text?.map (f := string) fun _ => id) payload constant (hpayload payload rfl) h
  case h_6 payload =>
    exact (fitting_text?.map (f := classLiteral) fun _ => id) payload constant
      (hpayload payload rfl) h
  case h_7 =>
    split at h
    next =>
      cases h
      trivial
    next => cases h
  case h_8 => cases h

theorem Call.fitting_ofJson? : Fitting Call.Fits ofJson? := by
  intro json call hshort h
  obtain ⟨parts, hparts, h⟩ := Option.bind_eq_some_iff.1 h
  have hpart := hshort.of_record? hparts
  split at h
  next kind owner name args returns =>
    simp only [List.forall_mem_cons] at hpart
    obtain ⟨-, howner, hname, hargs, hreturns, -⟩ := hpart
    obtain ⟨kind', -, h⟩ := Option.bind_eq_some_iff.1 h
    obtain ⟨owner', howner', h⟩ := Option.bind_eq_some_iff.1 h
    obtain ⟨name', hname', h⟩ := Option.bind_eq_some_iff.1 h
    obtain ⟨args', hargs', h⟩ := Option.bind_eq_some_iff.1 h
    obtain ⟨returns', hreturns', h⟩ := Option.bind_eq_some_iff.1 h
    cases h
    exact {
      owner := fitting_text? _ _ howner howner'
      name := fitting_text? _ _ hname hname'
      args := Kind.fitting_ofJson?.list? _ _ hargs hargs'
      returns := Kind.fitting_ofJson?.optional? _ _ hreturns hreturns' }
  next => cases h

theorem Instruction.fits_plain? {name : String} {instruction : Instruction}
    (h : plain? name = some instruction) : instruction.Fits := by
  rw [plain?.eq_def] at h
  split at h
  all_goals
    cases h
  all_goals
    trivial

/-- The parts of a group of fields are as short as the group. -/
theorem Json.Fitting.record {α : Type} {fits : α → Prop} {names optional : List String}
    {make : List Json → Option α}
    (hmake : ∀ parts value, (∀ part ∈ parts, part.Short) → make parts = some value → fits value) :
    Fitting fits fun json => (json.record? names optional).bind make := by
  intro json value hshort h
  obtain ⟨parts, hparts, h⟩ := Option.bind_eq_some_iff.1 h
  exact hmake parts value (hshort.of_record? hparts) h

theorem Instruction.fitting_withOperands? (name : String) :
    Fitting Instruction.Fits (withOperands? name) := by
  intro json instruction hshort h
  rw [withOperands?.eq_def] at h
  split at h
  case h_1 | h_3 | h_4 =>
    -- Numbers and operators have no length.
    obtain ⟨value, -, rfl⟩ := Option.map_eq_some_iff.1 h
    trivial
  case h_2 =>
    exact (Constant.fitting_ofJson?.map (f := pushConst) fun _ => id) json instruction hshort h
  case h_5 =>
    refine Json.Fitting.record ?_ json instruction hshort h
    intro parts instruction hpart h
    split at h
    next owner name kind =>
      simp only [List.forall_mem_cons] at hpart
      obtain ⟨owner', howner, h⟩ := Option.bind_eq_some_iff.1 h
      obtain ⟨name', hname, h⟩ := Option.bind_eq_some_iff.1 h
      obtain ⟨kind', hkind, h⟩ := Option.bind_eq_some_iff.1 h
      cases h
      exact ⟨fitting_text? _ _ hpart.1 howner, fitting_text? _ _ hpart.2.1 hname,
        Kind.fitting_ofJson? _ _ hpart.2.2.1 hkind⟩
    next => cases h
  case h_6 =>
    refine Json.Fitting.record ?_ json instruction hshort h
    intro parts instruction hpart h
    split at h
    next name kind =>
      simp only [List.forall_mem_cons] at hpart
      obtain ⟨name', hname, h⟩ := Option.bind_eq_some_iff.1 h
      obtain ⟨kind', hkind, h⟩ := Option.bind_eq_some_iff.1 h
      cases h
      exact ⟨fitting_text? _ _ hpart.1 hname, Kind.fitting_ofJson? _ _ hpart.2.1 hkind⟩
    next => cases h
  case h_7 =>
    refine Json.Fitting.record ?_ json instruction hshort h
    intro parts instruction hpart h
    split at h
    next name =>
      obtain ⟨name', hname, h⟩ := Option.bind_eq_some_iff.1 h
      cases h
      exact fitting_text? _ _ (hpart name List.mem_cons_self) hname
    next => cases h
  case h_8 =>
    exact (Call.fitting_ofJson?.map (f := invoke) fun _ => id) json instruction hshort h
  case h_9 =>
    exact (fitting_text?.map (f := new) fun _ => id) json instruction hshort h
  case h_10 =>
    refine Json.Fitting.record ?_ json instruction hshort h
    intro parts instruction hpart h
    split at h
    next slot name =>
      obtain ⟨slot', -, h⟩ := Option.bind_eq_some_iff.1 h
      obtain ⟨name', hname, h⟩ := Option.bind_eq_some_iff.1 h
      cases h
      exact fitting_text? _ _ (hpart name (.tail _ List.mem_cons_self)) hname
    next => cases h
  case h_11 =>
    refine Json.Fitting.record ?_ json instruction hshort h
    intro parts instruction hpart h
    split at h
    next mnemonic =>
      obtain ⟨mnemonic', hmnemonic, h⟩ := Option.bind_eq_some_iff.1 h
      cases h
      exact fitting_text? _ _ (hpart mnemonic List.mem_cons_self) hmnemonic
    next => cases h
  case h_12 => cases h

theorem Instruction.fitting_ofJson? : Fitting Instruction.Fits ofJson? := by
  intro json instruction hshort h
  obtain ⟨⟨name, payload?⟩, hvariant, h⟩ := Option.bind_eq_some_iff.1 h
  have hpayload := hshort.of_variant? hvariant
  dsimp only at h
  split at h
  next => exact fits_plain? h
  next payload =>
    split at h
    next hoperands =>
      cases h
      exact fitting_withOperands? name payload instruction (hpayload payload rfl) hoperands
    next =>
      split at h
      next => exact fits_plain? h
      next => cases h

/-! ### Bodies -/

namespace Body

theorem fitting_ofJson? : Fitting Body.Fits ofJson? := by
  refine Json.Fitting.record ?_
  intro parts body hpart h
  split at h
  next declaringClass superclass parameters instructions =>
    simp only [List.forall_mem_cons] at hpart
    obtain ⟨hdeclaringClass, hsuperclass, hparameters, hinstructions, -⟩ := hpart
    obtain ⟨declaringClass', hdeclaringClass', h⟩ := Option.bind_eq_some_iff.1 h
    obtain ⟨superclass', hsuperclass', h⟩ := Option.bind_eq_some_iff.1 h
    obtain ⟨parameters', hparameters', h⟩ := Option.bind_eq_some_iff.1 h
    obtain ⟨instructions', hinstructions', h⟩ := Option.bind_eq_some_iff.1 h
    cases h
    exact {
      declaringClass := fitting_text? _ _ hdeclaringClass hdeclaringClass'
      superclass := fitting_text? _ _ hsuperclass hsuperclass'
      parameters := Kind.fitting_ofJson?.list? _ _ hparameters hparameters'
      instructions := Instruction.fitting_ofJson?.list? _ _ hinstructions hinstructions' }
  next => cases h

theorem fitting_listOfJson? : Fitting Container.Fits listOfJson? := by
  intro json bodies hshort h
  rw [listOfJson?] at h
  split at h
  next hlist =>
    cases h
    exact fitting_ofJson?.list? _ _ hshort hlist
  next =>
    obtain ⟨body, hbody, rfl⟩ := Option.map_eq_some_iff.1 h
    have hone : 1 < 256 ^ 8 := by decide
    exact ⟨hone, List.forall_mem_singleton.2 (fitting_ofJson? _ _ hshort hbody)⟩

/-- **Bodies that are read from a text can be written in a container** if the length of the text
can. -/
theorem fits_of_ofText {text : String} {bodies : List Body} (hsize : text.utf8ByteSize < 256 ^ 8)
    (h : ofText text = .ok bodies) : Container.Fits bodies := by
  obtain ⟨-, json, rest, hread, hlist, -⟩ := ofText_eq_ok_iff.1 h
  have hshort : json.Short := Nat.lt_trans (Json.extent_lt_of_readFront hread) hsize
  exact fitting_listOfJson? _ _ hshort hlist

end Body

end FieldFlow
