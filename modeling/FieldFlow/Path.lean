/-!
# Paths

The names of files, taken apart at their slashes.

## Main Definitions

* `Path.components`: the parts that matter when paths are compared
* `Path.extension?`: what follows the last dot of the last part

## Design Notes

Repeated slashes, slashes at the end and single dots do not count, except for a dot at the very
front. Two paths are the same if their components are, even if they are written differently.
-/

namespace FieldFlow

/-- The name of a file, as it was given. -/
structure Path where
  text : String
  deriving DecidableEq, Repr

namespace Path

/-- A part of a path. -/
inductive Component where
  | root
  | current
  | parent
  | named (name : List Char)
  deriving DecidableEq, Repr

/-- The text between slashes. There is always at least one piece. -/
def pieces : List Char → List (List Char)
  | [] => [[]]
  | c :: rest =>
    match pieces rest with
    | [] => [[c]]
    | piece :: more => if c = '/' then [] :: piece :: more else (c :: piece) :: more

/-- The component of a piece that is not the first one. -/
def component? (piece : List Char) : Option Component :=
  match piece with
  | [] => none
  | ['.'] => none
  | ['.', '.'] => some .parent
  | _ => some (.named piece)

/-- The components of a path. -/
def components (path : Path) : List Component :=
  match path.text.toList, pieces path.text.toList with
  | '/' :: _, all => .root :: all.filterMap component?
  | _, ['.'] :: more => .current :: more.filterMap component?
  | _, all => all.filterMap component?

/-- Paths that lead to the same place as far as their texts tell. -/
def isSame (path other : Path) : Bool :=
  path.components = other.components

/-- The path without the slashes at its end. -/
def withoutSlashes (path : Path) : Path :=
  ⟨String.ofList (path.text.toList.reverse.dropWhile (· == '/')).reverse⟩

/-- The name of the file, if the path ends in a name. -/
def fileName? (path : Path) : Option (List Char) :=
  match path.components.getLast? with
  | some (.named name) => some name
  | _ => none

/-- What follows the last dot of a name, if something stands before that dot. -/
def extensionOf (name : List Char) : Option (List Char) :=
  let back := name.reverse
  match back.dropWhile (· != '.') with
  | _ :: _ :: _ => some (back.takeWhile (· != '.')).reverse
  | _ => none

/-- The extension of the file name. -/
def extension? (path : Path) : Option (List Char) :=
  path.fileName?.bind extensionOf

end Path

end FieldFlow
