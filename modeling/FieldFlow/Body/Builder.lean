import FieldFlow.Body.Basic

/-!
# Building bodies

A constructor body put together one instruction at a time, with the signatures of calls given by
their descriptors.

## Main Definitions

* `Body.empty`: a body without parameters and instructions
* `Body.withParameters`, `Body.push`: additions to a body
* `Body.superInit`: the call of the superclass constructor without arguments
* `Body.slotOf?`: the first slot of a parameter
-/

namespace FieldFlow.Body

/-- A body without parameters and instructions. -/
def empty (declaringClass superclass : String) : Body :=
  ⟨declaringClass, superclass, [], []⟩

/-- Adds parameters after those the body has. -/
def withParameters (body : Body) (kinds : List Kind) : Body :=
  { body with parameters := body.parameters ++ kinds }

/-- Adds an instruction at the end. -/
def push (body : Body) (instruction : Instruction) : Body :=
  { body with instructions := body.instructions ++ [instruction] }

/-- Loads the object under construction. -/
def loadThis (body : Body) : Body :=
  body.push (.loadLocal 0)

/-- Adds a call with the given descriptor. The body is unchanged if the descriptor is wrong. -/
def call (body : Body) (kind : CallKind) (owner name descriptor : String) :
    Except DescriptorError Body :=
  match Signature.ofDescriptor descriptor with
  | .error error => .error error
  | .ok signature =>
    .ok (body.push (.invoke ⟨kind, owner, name, signature.args, signature.returns⟩))

/-- Calls the constructor of the superclass that takes no arguments. -/
def superInit (body : Body) : Body :=
  body.loadThis.push (.invoke ⟨.special, body.superclass, initializerName, [], none⟩)

/-- The slot after the object under construction and the first `index` parameters. -/
def slotBefore (parameters : List Kind) (index : Nat) : Nat :=
  1 + Kind.totalWidth (parameters.take index)

/-- The first slot of the parameter with the given index, as a 16-bit number. The index of the
next parameter to be added has a slot too; beyond it there is none. -/
def slotOf? (body : Body) (index : Nat) : Option UInt16 :=
  if index ≤ body.parameters.length then some (.ofNat (slotBefore body.parameters index))
  else none

end FieldFlow.Body
