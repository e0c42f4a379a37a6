import FieldFlow.Table
import Mathlib.Data.List.Basic
import Mathlib.Data.List.Sort

/-!
# Lookups in tables

What a table is to those who look names up in it: a list of entries without repeated names, which the
lookups determine.

## Main Statements

* `Table.get?_eq_some_iff_mem`: a lookup finds the entry of the name
* `Table.eq_of_get?_eq`: tables with the same lookups are equal
* `Table.names_insertEntry_perm`: an entry with a new name is put between the others
-/

namespace FieldFlow.Table

variable {α : Type} {table other : Table α} {name : String} {value : α}

theorem get?_empty (name : String) : (empty : Table α).get? name = none :=
  rfl

theorem names_nodup (table : Table α) : table.names.Nodup :=
  List.pairwise_map.2 (table.ordered.imp String.ne_of_lt)

/-- A lookup finds the entry of the name. -/
theorem get?_eq_some_iff_mem : table.get? name = some value ↔ (name, value) ∈ table.entries := by
  unfold get?
  rw [Option.map_eq_some_iff]
  constructor
  · rintro ⟨entry, hfind, rfl⟩
    have hname : entry.1 = name := by simpa using List.find?_some hfind
    exact hname ▸ List.mem_of_find?_eq_some hfind
  · intro hmem
    cases hfind : table.entries.find? fun entry => entry.1 == name with
    | none => simpa using List.find?_eq_none.1 hfind _ hmem
    | some entry =>
      have hname : entry.1 = name := by simpa using List.find?_some hfind
      have hentry := List.mem_of_find?_eq_some hfind
      exact ⟨entry, rfl, by rw [List.inj_on_of_nodup_map table.names_nodup hentry hmem hname]⟩

theorem mem_names_iff : name ∈ table.names ↔ ∃ value, table.get? name = some value := by
  unfold names
  simp [get?_eq_some_iff_mem]

/-- **Tables with the same lookups are equal.** -/
theorem eq_of_get?_eq (h : ∀ name, table.get? name = other.get? name) : table = other := by
  have hentries : table.entries = other.entries := by
    refine List.Pairwise.eq_of_mem_iff table.ordered other.ordered fun entry => ?_
    rw [← get?_eq_some_iff_mem, ← get?_eq_some_iff_mem, h]
  cases table
  cases other
  cases hentries
  rfl

/-- An entry with a new name is put between the others. -/
theorem names_insertEntry_perm (value : α) {entries : List (String × α)}
    (hnew : name ∉ entries.map (·.1)) :
    ((insertEntry name value entries).map (·.1)).Perm (name :: entries.map (·.1)) := by
  induction entries with
  | nil => exact .refl _
  | cons entry entries ih =>
    rw [List.map_cons, List.mem_cons, not_or] at hnew
    rw [insertEntry]
    split
    next => exact .refl _
    next =>
      rw [if_neg hnew.1]
      exact ((ih hnew.2).cons entry.1).trans (.swap _ _ _)

end FieldFlow.Table
