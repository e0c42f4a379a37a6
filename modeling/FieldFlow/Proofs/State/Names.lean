import FieldFlow.Proofs.State.Slots
import Mathlib.Data.Set.List

/-!
# Debug names

For which parameter a debug name is recorded, and when all parameters have one.

## Main Statements

* `State.parameterAt?_eq_some_iff`: a slot names the parameter that begins at it
* `State.recordName_slotBefore`, `State.recordName_of_ne`: a debug name is recorded for the
  parameter that begins at its slot, and has no effect if there is none
* `State.parameterNames_eq_some_iff`: the names of the parameters are the recorded ones, if there
  are parameters and each has one
-/

namespace FieldFlow.State

variable {state : State} {kinds : List Kind} {slot index found first next : Nat} {name : String}
variable {names : List String}

/-- The search finds the parameter that begins at the slot. -/
theorem parameterFrom_eq_some_iff : parameterFrom slot first next kinds = some found ↔
    ∃ index < kinds.length, found = first + index ∧
      slot = next + Kind.totalWidth (kinds.take index) := by
  induction kinds generalizing first next with
  | nil => simp [parameterFrom]
  | cons kind kinds ih =>
    have hpos := kind.width_pos
    rw [parameterFrom]
    split
    next hslot =>
      constructor
      · rintro ⟨rfl⟩
        exact ⟨0, Nat.zero_lt_succ _, rfl, by simp [hslot]⟩
      · rintro ⟨index, -, rfl, hfirst⟩
        cases index with
        | zero => rfl
        | succ index =>
          rw [List.take_succ_cons, Kind.totalWidth_cons] at hfirst
          omega
    next hslot =>
      split
      next hinside =>
        constructor
        · intro h
          cases h
        · rintro ⟨index, -, -, hfirst⟩
          cases index with
          | zero => exact absurd hfirst.symm (by simpa using hslot)
          | succ index =>
            rw [List.take_succ_cons, Kind.totalWidth_cons] at hfirst
            omega
      next hinside =>
        rw [ih]
        constructor
        · rintro ⟨index, hindex, rfl, hfirst⟩
          refine ⟨index + 1, Nat.succ_lt_succ hindex, by omega, ?_⟩
          rw [List.take_succ_cons, Kind.totalWidth_cons]
          omega
        · rintro ⟨index, hindex, rfl, hfirst⟩
          cases index with
          | zero => exact absurd hfirst.symm (by simpa using hslot)
          | succ index =>
            rw [List.take_succ_cons, Kind.totalWidth_cons] at hfirst
            exact ⟨index, Nat.lt_of_succ_lt_succ hindex, by omega, by omega⟩

/-- A debug name is taken for that of the parameter that begins at its slot. -/
theorem parameterAt?_eq_some_iff : state.parameterAt? slot = some index ↔
    index < state.parameters.length ∧ slot = Body.slotBefore state.parameters index := by
  rw [parameterAt?, Body.slotBefore]
  split
  next hzero =>
    constructor
    · intro h
      cases h
    · intro h
      omega
  next hslot =>
    rw [parameterFrom_eq_some_iff]
    constructor
    · rintro ⟨_, hindex, rfl, hfirst⟩
      rw [Nat.zero_add]
      exact ⟨hindex, hfirst⟩
    · rintro ⟨hindex, hfirst⟩
      exact ⟨index, hindex, (Nat.zero_add index).symm, hfirst⟩

/-- **A debug name for the first slot of a parameter is recorded.** -/
theorem recordName_slotBefore (h : index < state.parameters.length) (name : String) :
    state.recordName (Body.slotBefore state.parameters index) name =
      { state with names := state.names.setIfInBounds index (some name) } := by
  rw [recordName, parameterAt?_eq_some_iff.2 ⟨h, rfl⟩]

/-- **A debug name for any other slot has no effect.** -/
theorem recordName_of_ne
    (h : ∀ index < state.parameters.length, slot ≠ Body.slotBefore state.parameters index)
    (name : String) : state.recordName slot name = state := by
  rw [recordName]
  split
  · rfl
  next index hfound =>
    obtain ⟨hindex, hslot⟩ := parameterAt?_eq_some_iff.1 hfound
    exact absurd hslot (h index hindex)

/-- The name of a parameter is left alone by debug names for other slots. -/
theorem getElem?_names_recordName_of_ne (hslot : slot ≠ Body.slotBefore state.parameters index)
    (name : String) : (state.recordName slot name).names[index]? = state.names[index]? := by
  rw [recordName]
  split
  · rfl
  next found hfound =>
    obtain ⟨-, hfirst⟩ := parameterAt?_eq_some_iff.1 hfound
    have hne : found ≠ index := by
      rintro rfl
      exact hslot hfirst
    exact Array.getElem?_setIfInBounds_ne hne

/-! ### The names of all parameters -/

theorem mapM_id_eq_some_iff {entries : List (Option String)} :
    entries.mapM id = some names ↔ entries = names.map some := by
  induction entries generalizing names with
  | nil => cases names <;> simp
  | cons entry entries ih =>
    rw [List.mapM_cons]
    cases names with
    | nil => simp [Option.bind_eq_some_iff]
    | cons name names => simp [ih, Option.bind_eq_some_iff, and_comm]

/-- **The names of the parameters are the recorded ones**, if there is at least one parameter and
a name has been recorded for each. -/
theorem parameterNames_eq_some_iff :
    state.parameterNames = some names ↔ names ≠ [] ∧ state.names.toList = names.map some := by
  rw [parameterNames]
  split
  next hempty =>
    rw [Array.isEmpty_iff.1 hempty]
    simp
  next hnonempty =>
    rw [mapM_id_eq_some_iff, iff_and_self]
    rintro hnames rfl
    exact hnonempty (by simpa using hnames)

/-- The parameters have names if there is at least one and a name has been recorded for each. -/
theorem exists_parameterNames_iff : (∃ names, state.parameterNames = some names) ↔
    state.names ≠ #[] ∧ ∀ entry ∈ state.names, ∃ name, some name = entry := by
  have hnames : (∃ names : List String, names.map some = state.names.toList) ↔
      ∀ entry ∈ state.names.toList, ∃ name, some name = entry :=
    Set.ext_iff.1 (Set.range_list_map some) state.names.toList
  simp only [Array.mem_toList_iff] at hnames
  rw [← hnames]
  simp only [parameterNames_eq_some_iff, ne_eq, ← Array.toList_eq_nil_iff]
  constructor
  · rintro ⟨names, hne, heq⟩
    rw [heq]
    exact ⟨by simpa using hne, names, rfl⟩
  · rintro ⟨hne, names, heq⟩
    rw [← heq] at hne ⊢
    exact ⟨names, by simpa using hne, rfl⟩

/-- Before the first instruction, no parameter has a name. -/
theorem parameterNames_initial (parameters : List Kind) :
    (initial parameters).parameterNames = none := by
  have hnames : (initial parameters).names = Array.replicate parameters.length none := rfl
  rw [parameterNames, hnames]
  cases parameters with
  | nil => rfl
  | cons kind kinds => simp [List.replicate_succ]

end FieldFlow.State
