import FieldFlow.Instruction
import FieldFlow.Value.CellSet

/-!
# Symbolic values

The expressions that stand for what a constructor computes.

## Main Definitions

* `Value`: an expression
* `Value.mentionsParameter`, `Value.mentionedCells`: what occurs in an expression as it is written
* `Value.receiverRoot`: the receiver at the bottom of a chain of method calls

## Design Notes

An object is reached through a reference to a cell, and its expression is the content of that
cell. A method call changes the content, so that every reference to the cell sees the call.

The two occurrence functions do not look into cells. They are kept with each node, so that asking
for them takes no time however often parts of a value are shared.
-/

namespace FieldFlow

/-- A symbolic expression over the object under construction and the parameters. -/
inductive Value where
  /-- The object under construction. -/
  | this
  | parameter (index : Nat) (kind : Kind)
  | constant (constant : Constant)
  | int (value : Int64)
  /-- Whatever the cell holds. -/
  | ref (cell : CellId)
  /-- A fresh object. -/
  | new (className : String)
  | methodCall (receiver : Value) (name : String) (args : List Value)
  | staticCall (owner name : String) (args : List Value)
  | fieldRead (receiver : Value) (name : String)
  | staticField (owner name : String)
  | binaryOp (operator : Operator) (left right : Value)
with
  /-- Whether a parameter occurs in the value, cells left aside. -/
  @[computed_field] mentionsParameter : Value → Bool
    | .parameter _ _ => true
    | .this => false
    | .constant _ => false
    | .int _ => false
    | .ref _ => false
    | .new _ => false
    | .methodCall receiver _ args =>
      receiver.mentionsParameter || args.attach.any fun ⟨arg, _⟩ => arg.mentionsParameter
    | .staticCall _ _ args => args.attach.any fun ⟨arg, _⟩ => arg.mentionsParameter
    | .fieldRead receiver _ => receiver.mentionsParameter
    | .staticField _ _ => false
    | .binaryOp _ left right => left.mentionsParameter || right.mentionsParameter
  /-- The cells to which references occur in the value. -/
  @[computed_field] mentionedCells : Value → CellSet
    | .ref cell => .singleton cell
    | .this => .empty
    | .parameter _ _ => .empty
    | .constant _ => .empty
    | .int _ => .empty
    | .new _ => .empty
    | .methodCall receiver _ args =>
      args.attach.foldl (fun set ⟨arg, _⟩ => set.union arg.mentionedCells) receiver.mentionedCells
    | .staticCall _ _ args =>
      args.attach.foldl (fun set ⟨arg, _⟩ => set.union arg.mentionedCells) .empty
    | .fieldRead receiver _ => receiver.mentionedCells
    | .staticField _ _ => .empty
    | .binaryOp _ left right => left.mentionedCells.union right.mentionedCells
  deriving Inhabited

namespace Value

/-- The null reference. -/
def null : Value := constant .null

/-- Whether the value is a reference to a cell. -/
def isRef : Value → Bool
  | ref _ => true
  | _ => false

/-- The receiver at the bottom of a chain of method calls. -/
def receiverRoot : Value → Value
  | methodCall receiver _ _ => receiver.receiverRoot
  | value => value

@[simp] theorem mentionsParameter_methodCall (receiver : Value) (name : String)
    (args : List Value) :
    (methodCall receiver name args).mentionsParameter =
      (receiver.mentionsParameter || args.any mentionsParameter) := by
  simp [mentionsParameter]

@[simp] theorem mentionsParameter_staticCall (owner name : String) (args : List Value) :
    (staticCall owner name args).mentionsParameter = args.any mentionsParameter := by
  simp [mentionsParameter]

@[simp] theorem mentionedCells_methodCall (receiver : Value) (name : String)
    (args : List Value) :
    (methodCall receiver name args).mentionedCells =
      args.foldl (fun set arg => set.union arg.mentionedCells) receiver.mentionedCells := by
  simp [mentionedCells]

@[simp] theorem mentionedCells_staticCall (owner name : String) (args : List Value) :
    (staticCall owner name args).mentionedCells =
      args.foldl (fun set arg => set.union arg.mentionedCells) .empty := by
  simp [mentionedCells]

end Value

end FieldFlow
