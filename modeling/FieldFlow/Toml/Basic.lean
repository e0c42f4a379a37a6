/-!
# TOML tables

The values of a TOML document, and the rules by which key-value lines and headers build its tables.

## Main Definitions

* `Toml`: a value
* `Toml.Entries.insert?`: a key-value line, whose key may be dotted
* `Toml.Section`: a header with the key-value lines after it
* `Toml.Entries.addSection?`: the effect of a section on the document

## Design Notes

No key may be given twice, and no table may be written in two places. What may still be added to a
table depends on how it came about, so that is kept with the table.
-/

namespace FieldFlow

/-- How a table came about. -/
inductive Toml.Form where
  /-- By a header of its own. -/
  | opened
  /-- By a header of a table inside it. -/
  | implied
  /-- By a dotted key. -/
  | dotted
  /-- Between braces; nothing can be added to it. -/
  | closed
  deriving DecidableEq, Repr

/-- A TOML value. Floating-point numbers, dates and times are read but not kept. -/
inductive Toml where
  | string (text : String)
  | integer (value : Int)
  | boolean (value : Bool)
  | float
  | moment
  | array (items : List Toml)
  | table (form : Toml.Form) (entries : List (String × Toml))
  /-- The tables of several headers of the same name, the last one first. -/
  | tables (items : List (List (String × Toml)))
  deriving Inhabited

namespace Toml

/-- The entries of a table. -/
abbrev Entries := List (String × Toml)

namespace Entries

/-- The value of a key. -/
def get? (entries : Entries) (key : String) : Option Toml :=
  (entries.find? (·.1 == key)).map (·.2)

/-- The entries without a key. -/
def erase (entries : Entries) (key : String) : Entries :=
  entries.filter (·.1 != key)

/-- The entries with a new value for a key. -/
def replace (entries : Entries) (key : String) (value : Toml) : Entries :=
  (key, value) :: entries.erase key

/-- A key that is not there yet, with its value. -/
def add? (entries : Entries) (key : String) (value : Toml) : Option Entries :=
  match entries.get? key with
  | none => some ((key, value) :: entries)
  | some _ => none

/-! ### Key-value lines -/

/-- Adds a key below a path of dotted keys. The form is that of the table in hand; the table that
gets the key has to have come about by a dotted key, unless the path is empty. -/
def insertBelow? (form : Form) (key : String) (value : Toml) :
    List String → Entries → Option Entries
  | [], entries => if form = .dotted then entries.add? key value else none
  | name :: path, entries =>
    match entries.get? name with
    | none => do
      let inner ← insertBelow? .dotted key value path []
      some ((name, table .dotted inner) :: entries)
    | some (table .dotted inner) => do
      let inner ← insertBelow? .dotted key value path inner
      some (entries.replace name (table .dotted inner))
    | some (table .implied inner) => do
      let inner ← insertBelow? .implied key value path inner
      some (entries.replace name (table .implied inner))
    | some (tables (last :: others)) => do
      let last ← insertBelow? .opened key value path last
      some (entries.replace name (tables (last :: others)))
    | some _ => none

/-- Adds the value of a key, which is dotted if the path is not empty. -/
def insert? (entries : Entries) (path : List String) (key : String) (value : Toml) :
    Option Entries :=
  match path with
  | [] => entries.add? key value
  | _ :: _ => insertBelow? .opened key value path entries

/-- Adds several keys in order. -/
def insertAll? (entries : Entries) : List (List String × String × Toml) → Option Entries
  | [] => some entries
  | (path, key, value) :: more => do
    let entries ← entries.insert? path key value
    entries.insertAll? more

/-! ### Headers -/

/-- Changes the table at the end of a path of header names. Tables that are not there yet are
implied, and of several tables of one name the last is meant. -/
def descend? {α : Type} (change : Entries → Option (α × Entries)) :
    List String → Entries → Option (α × Entries)
  | [], entries => change entries
  | name :: path, entries =>
    match entries.get? name with
    | none => do
      let (result, inner) ← descend? change path []
      some (result, (name, table .implied inner) :: entries)
    | some (table .closed _) => none
    | some (table form inner) => do
      let (result, inner) ← descend? change path inner
      some (result, entries.replace name (table form inner))
    | some (tables (last :: others)) => do
      let (result, last) ← descend? change path last
      some (result, entries.replace name (tables (last :: others)))
    | some _ => none

/-- Takes out the table that a header opens. It may have been implied before, but not written. -/
def takeTable? (key : String) (entries : Entries) : Option (Entries × Entries) :=
  match entries.get? key with
  | none => some ([], entries)
  | some (table .implied inner) => some (inner, entries.erase key)
  | some _ => none

/-- Puts the table of a header in its place. -/
def putTable? (key : String) (inner : Entries) (entries : Entries) : Option (Unit × Entries) := do
  let entries ← entries.add? key (table .opened inner)
  some ((), entries)

/-- Adds a table to the tables of one name. -/
def addTable? (key : String) (inner : Entries) (entries : Entries) : Option (Unit × Entries) :=
  match entries.get? key with
  | none => some ((), (key, tables [inner]) :: entries)
  | some (tables items) => some ((), entries.replace key (tables (inner :: items)))
  | some _ => none

end Entries

/-- A header with the key-value lines that follow it. -/
structure Section where
  path : List String
  key : String
  /-- A header in double brackets adds one more table of its name. -/
  repeated : Bool
  lines : List (List String × String × Toml)

/-- Adds a section to a document. -/
def Entries.addSection? (entries : Entries) (part : Section) : Option Entries :=
  if part.repeated then do
    let inner ← Entries.insertAll? [] part.lines
    let (_, entries) ← Entries.descend? (Entries.addTable? part.key inner) part.path entries
    some entries
  else do
    let (inner, entries) ← Entries.descend? (Entries.takeTable? part.key) part.path entries
    let inner ← inner.insertAll? part.lines
    let (_, entries) ← Entries.descend? (Entries.putTable? part.key inner) part.path entries
    some entries

/-- The document of its first lines and its sections. -/
def document? (lines : List (List String × String × Toml)) (parts : List Section) :
    Option Entries := do
  let entries ← Entries.insertAll? [] lines
  parts.foldlM Entries.addSection? entries

end Toml

end FieldFlow
