/-!
# Tables

Finite maps from names to values, listed in increasing order of name.

## Main Definitions

* `Table`: entries with strictly increasing names
* `Table.insert`, `Table.get?`: adding an entry and looking one up

## Design Notes

The order of the entries is part of the type, so two tables with the same lookups are equal and a
listing needs no sorting. Names are compared by code point, which is also the order of their
UTF-8 bytes.
-/

namespace FieldFlow

/-- A finite map from names, its entries in increasing order of name. -/
structure Table (α : Type) where
  entries : List (String × α)
  ordered : entries.Pairwise (fun entry later => entry.1 < later.1)

namespace Table

variable {α : Type}

/-- The table without entries. -/
def empty : Table α :=
  ⟨[], .nil⟩

instance : Inhabited (Table α) := ⟨empty⟩

/-- Puts an entry in its place, where it displaces an entry of the same name. -/
def insertEntry (name : String) (value : α) : List (String × α) → List (String × α)
  | [] => [(name, value)]
  | entry :: entries =>
    if name < entry.1 then (name, value) :: entry :: entries
    else if name = entry.1 then (name, value) :: entries
    else entry :: insertEntry name value entries

/-- What is in a list after an insertion was either inserted or there before. -/
theorem mem_insertEntry {name : String} {value : α} {entries : List (String × α)}
    {entry : String × α} (h : entry ∈ insertEntry name value entries) :
    entry = (name, value) ∨ entry ∈ entries := by
  induction entries with
  | nil => simpa [insertEntry] using h
  | cons head tail ih =>
    unfold insertEntry at h
    split at h
    · simpa using h
    · split at h
      · rcases List.mem_cons.1 h with h | h
        · exact .inl h
        · exact .inr (.tail _ h)
      · rcases List.mem_cons.1 h with h | h
        · exact .inr (h ▸ List.mem_cons_self)
        · exact (ih h).imp id (.tail _)

theorem insertEntry_ordered {name : String} {value : α} {entries : List (String × α)}
    (h : entries.Pairwise (fun entry later => entry.1 < later.1)) :
    (insertEntry name value entries).Pairwise (fun entry later => entry.1 < later.1) := by
  induction entries with
  | nil => simp [insertEntry]
  | cons head tail ih =>
    obtain ⟨hhead, htail⟩ := List.pairwise_cons.1 h
    unfold insertEntry
    split
    next hlt =>
      refine List.pairwise_cons.2 ⟨fun later hmem => ?_, h⟩
      rcases List.mem_cons.1 hmem with rfl | hmem
      · exact hlt
      · exact String.lt_trans hlt (hhead later hmem)
    next hlt =>
      split
      next heq =>
        subst heq
        exact List.pairwise_cons.2 ⟨hhead, htail⟩
      next hne =>
        refine List.pairwise_cons.2 ⟨fun later hmem => ?_, ih htail⟩
        rcases mem_insertEntry hmem with rfl | hmem
        · grind
        · exact hhead later hmem

/-- The table with one entry added or replaced. -/
def insert (table : Table α) (name : String) (value : α) : Table α :=
  ⟨insertEntry name value table.entries, insertEntry_ordered table.ordered⟩

/-- The value of the entry with the given name. -/
def get? (table : Table α) (name : String) : Option α :=
  (table.entries.find? fun entry => entry.1 == name).map (·.2)

/-- The names of the entries, in increasing order. -/
def names (table : Table α) : List String :=
  table.entries.map (·.1)

/-- Whether the table has no entries. -/
def isEmpty (table : Table α) : Bool :=
  table.entries.isEmpty

/-- Inserting into a list of entries and looking a name up. -/
theorem find?_insertEntry (name other : String) (value : α) (entries : List (String × α)) :
    ((insertEntry name value entries).find? fun entry => entry.1 == other) =
      if name = other then some (name, value) else entries.find? fun entry => entry.1 == other := by
  induction entries with
  | nil => simp [insertEntry, List.find?_cons]; grind
  | cons head tail ih =>
    unfold insertEntry
    split
    · grind
    · split
      · grind
      · rw [List.find?_cons, List.find?_cons, ih]
        grind

/-- An inserted entry is found, and no other entry is disturbed. -/
theorem get?_insert (table : Table α) (name other : String) (value : α) :
    (table.insert name value).get? other =
      if name = other then some value else table.get? other := by
  unfold get? insert
  rw [find?_insertEntry]
  split <;> simp

end Table

end FieldFlow
