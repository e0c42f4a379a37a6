import FieldFlow.Kind.Basic

/-!
# Boxing

The calls that turn a primitive value into an object of its wrapper class and back. They change
the representation of a value and not the value itself.

## Main Definitions

* `Boxing.idioms`: the eight wrapper classes
* `Boxing.ofWrapper?`: the idiom of a wrapper class
* `Boxing.isBoxing`, `Boxing.isUnboxing`: calls that only convert

## Design Notes

A wrapper class is recognized with a slash in place of any of the dots of its name.
-/

namespace FieldFlow

/-- A primitive type, its wrapper class, and the accessor that takes the value out again. -/
structure Boxing where
  primitive : String
  wrapper : String
  unbox : String
  deriving DecidableEq, Repr

namespace Boxing

/-- The static method of a wrapper class that makes a wrapper. -/
def boxingMethod : String := "valueOf"

/-- The eight wrapper classes. -/
def idioms : List Boxing := [
  ⟨"boolean", "java.lang.Boolean", "booleanValue"⟩,
  ⟨"byte", "java.lang.Byte", "byteValue"⟩,
  ⟨"char", "java.lang.Character", "charValue"⟩,
  ⟨"short", "java.lang.Short", "shortValue"⟩,
  ⟨"int", "java.lang.Integer", "intValue"⟩,
  ⟨"long", "java.lang.Long", "longValue"⟩,
  ⟨"float", "java.lang.Float", "floatValue"⟩,
  ⟨"double", "java.lang.Double", "doubleValue"⟩]

/-- A class name matches a wrapper's name if they agree character by character, where a slash may
stand for a dot. -/
def matchesName : List Char → List Char → Bool
  | [], [] => true
  | w :: wrapper, c :: name => (w = c || (w = '.' && c = '/')) && matchesName wrapper name
  | _, _ => false

/-- The idiom of the wrapper class with the given name. -/
def ofWrapper? (className : String) : Option Boxing :=
  idioms.find? fun idiom => matchesName idiom.wrapper.toList className.toList

/-- A static call that wraps its argument. -/
def isBoxing (owner name : String) : Bool :=
  name == boxingMethod && (ofWrapper? owner).isSome

/-- A call that takes the value out of a wrapper of the given kind. -/
def isUnboxing (kind : Kind) (accessor : String) : Bool :=
  match kind.className?.bind ofWrapper? with
  | some idiom => idiom.unbox == accessor
  | none => false

end Boxing

end FieldFlow
