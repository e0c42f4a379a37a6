import FieldFlow.Path

/-!
# Files

What programs over files need of them, and files that live in memory.

## Main Definitions

* `FileStore`: reading and writing files by path
* `Folder`: a tree of files below a working directory
* `Folder.read`, `Folder.write`: reading and writing in it

## Design Notes

The commands of this library are written against `FileStore` alone. They run on the files of the
system, and on a `Folder` as a state.
-/

namespace FieldFlow

/-- Why a file cannot be read or written. -/
inductive FileFault where
  | notFound
  | isDirectory
  | notDirectory
  /-- Any other reason that a system may have. -/
  | other
  deriving DecidableEq, Repr

/-- Effects that can read and write files. -/
class FileStore (m : Type → Type) where
  /-- The bytes of a file. -/
  read : Path → m (Except FileFault (List UInt8))
  /-- Creates a file or replaces its bytes. -/
  write : Path → List UInt8 → m (Except FileFault Unit)
  /-- Whether there is a file at the path. -/
  isFile : Path → m Bool

/-! ### Files in memory -/

/-- The names from the working directory down to a file or a directory. -/
abbrev Folder.Location := List (List Char)

/-- What there is at a location. -/
inductive Folder.Entry where
  | directory
  | file (bytes : List UInt8)
  deriving DecidableEq, Repr

/-- The files and directories below a working directory. -/
structure Folder where
  entries : List (Folder.Location × Folder.Entry)
  deriving Inhabited

namespace Folder

/-- A folder without files. -/
def empty : Folder := ⟨[]⟩

/-- What there is at a location. The working directory is always there. -/
def get? (folder : Folder) (location : Location) : Option Entry :=
  match location with
  | [] => some .directory
  | _ => (folder.entries.find? (·.1 == location)).map (·.2)

/-- Puts an entry at a location, in place of what was there. -/
def put (folder : Folder) (location : Location) (entry : Entry) : Folder :=
  ⟨(location, entry) :: folder.entries.filter (·.1 != location)⟩

/-- A location that has to be a directory. -/
def enter (folder : Folder) (location : Location) : Except FileFault Unit :=
  match folder.get? location with
  | some .directory => .ok ()
  | some (.file _) => .error .notDirectory
  | none => .error .notFound

/-- Follows the pieces of a path from a directory. All but the last have to be directories, and
the last too if it is empty or made of dots. Nothing is known of what lies above the working
directory. -/
def walk (folder : Folder) (location : Location) : List (List Char) → Except FileFault Location
  | [] => .ok location
  | piece :: pieces => do
    folder.enter location
    match piece with
    | [] | ['.'] => walk folder location pieces
    | ['.', '.'] =>
      match location with
      | [] => .error .notFound
      | _ => walk folder location.dropLast pieces
    | name => walk folder (location ++ [name]) pieces

/-- The location that a path leads to. -/
def locate (folder : Folder) (path : Path) : Except FileFault Location :=
  match path.text.toList with
  | [] => .error .notFound
  | '/' :: _ => .error .notFound
  | text => folder.walk [] (Path.pieces text)

/-- The bytes of a file. -/
def read (folder : Folder) (path : Path) : Except FileFault (List UInt8) := do
  let location ← folder.locate path
  match folder.get? location with
  | some (.file bytes) => .ok bytes
  | some .directory => .error .isDirectory
  | none => .error .notFound

/-- The folder after a file has been created or its bytes replaced. A slash after the last name
makes it the name of a directory. -/
def write (folder : Folder) (path : Path) (bytes : List UInt8) : Except FileFault Folder := do
  let location ← folder.locate path.withoutSlashes
  match folder.get? location with
  | some .directory => .error .isDirectory
  | _ =>
    if path = path.withoutSlashes then .ok (folder.put location (.file bytes))
    else .error .isDirectory

/-- Whether there is a file at the path. -/
def isFile (folder : Folder) (path : Path) : Bool :=
  match folder.read path with
  | .ok _ => true
  | .error _ => false

/-- All directories on the way to a location, from the top. -/
def makeDirectories (folder : Folder) (location : Location) : List (List Char) → Folder
  | [] | [_] => folder
  | name :: names =>
    let location := location ++ [name]
    let folder :=
      match folder.get? location with
      | none => folder.put location .directory
      | some _ => folder
    makeDirectories folder location names

/-- The folder with a file and all directories on the way to it. -/
def plant (folder : Folder) (path : Path) (bytes : List UInt8) : Except FileFault Folder :=
  let names := (Path.pieces path.text.toList).filter fun piece => piece ≠ [] ∧ piece ≠ ['.']
  (folder.makeDirectories [] names).write path bytes

end Folder

/-- A folder as the state of a program. -/
instance : FileStore (StateM Folder) where
  read path := return (← get).read path
  write path bytes := do
    match (← get).write path bytes with
    | .ok folder => do
      set folder
      return .ok ()
    | .error fault => return .error fault
  isFile path := return (← get).isFile path

end FieldFlow
