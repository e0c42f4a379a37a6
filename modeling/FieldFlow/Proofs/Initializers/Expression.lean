import FieldFlow.Body.Builder
import FieldFlow.Proofs.AliasFree.Trees

/-!
# Field initializers

Expressions as they are written in a constructor, the instructions to which they are compiled, and
constructors that do nothing but assign such expressions to fields.

## Main Definitions

* `Initializers.Expr`, `Initializers.Args`: expressions over the parameters of a constructor
* `Initializers.Expr.code`: the instructions of an expression
* `Initializers.Expr.tree`: what an expression stands for
* `Initializers.constructor`: the constructor with a list of assignments

## Design Notes

An expression can only be written over the parameters that there are, and a call with a receiver
cannot be static. The names of classes and members are arbitrary. In particular the name that the
initializers of new objects have is a parameter of the translation.
-/

namespace FieldFlow.Initializers

/-! ### Expressions -/

mutual

/-- An expression over the parameters of a constructor. -/
inductive Expr (parameters : List Kind) where
  | this
  | parameter (index : Fin parameters.length)
  | null
  | int (value : Int64)
  | constant (constant : Constant)
  | staticField (owner name : String) (kind : Kind)
  | field (receiver : Expr parameters) (name : String) (kind : Kind)
  | binaryOp (operator : Operator) (left right : Expr parameters)
  | staticCall (owner name : String) (args : Args parameters) (returns : Kind)
  | methodCall (kind : { kind : CallKind // kind ≠ .static }) (receiver : Expr parameters)
      (owner name : String) (args : Args parameters) (returns : Kind)
  | new (className : String) (args : Args parameters)

/-- The arguments of a call, with the kinds that the method declares for them. -/
inductive Args (parameters : List Kind) where
  | nil
  | cons (kind : Kind) (arg : Expr parameters) (rest : Args parameters)

end

variable {parameters : List Kind}

/-- The kinds of the arguments. -/
def Args.kinds : Args parameters → List Kind
  | .nil => []
  | .cons kind _ rest => kind :: rest.kinds

/-! ### Instructions -/

mutual

/-- The instructions that leave the value of the expression on the stack. Operands are evaluated
from left to right. A new object is duplicated, so that its initializer can take one of the two. -/
def Expr.code (initializer : String) : Expr parameters → List Instruction
  | .this => [.loadLocal 0]
  | .parameter index => [.loadLocal (.ofNat (Body.slotBefore parameters index))]
  | .null => [.pushNull]
  | .int value => [.pushInt value]
  | .constant constant => [.pushConst constant]
  | .staticField owner name kind => [.getStatic owner name kind]
  | .field receiver name kind => receiver.code initializer ++ [.getField name kind]
  | .binaryOp operator left right =>
    left.code initializer ++ right.code initializer ++ [.binaryOp operator]
  | .staticCall owner name args returns =>
    args.code initializer ++ [.invoke ⟨.static, owner, name, args.kinds, some returns⟩]
  | .methodCall kind receiver owner name args returns =>
    receiver.code initializer ++ args.code initializer ++
      [.invoke ⟨kind, owner, name, args.kinds, some returns⟩]
  | .new className args =>
    .new className :: .dup :: (args.code initializer ++
      [.invoke ⟨.special, className, initializer, args.kinds, none⟩])

/-- The instructions that leave the values of the arguments on the stack. -/
def Args.code (initializer : String) : Args parameters → List Instruction
  | .nil => []
  | .cons _ arg rest => arg.code initializer ++ rest.code initializer

end

/-! ### Trees -/

mutual

/-- What the expression stands for. A new object stands for the call of its initializer. -/
def Expr.tree (initializer : String) : Expr parameters → Tree
  | .this => .this
  | .parameter index => .parameter index parameters[index]
  | .null => .constant .null
  | .int value => .int value
  | .constant constant => .constant constant
  | .staticField owner name _ => .staticField owner name
  | .field receiver name _ => .fieldRead (receiver.tree initializer) name
  | .binaryOp operator left right =>
    .binaryOp operator (left.tree initializer) (right.tree initializer)
  | .staticCall owner name args _ => .staticCall owner name (args.trees initializer)
  | .methodCall _ receiver _ name args _ =>
    .methodCall (receiver.tree initializer) name (args.trees initializer)
  | .new className args => .methodCall (.new className) initializer (args.trees initializer)

/-- What the arguments stand for. -/
def Args.trees (initializer : String) : Args parameters → List Tree
  | .nil => []
  | .cons _ arg rest => arg.tree initializer :: rest.trees initializer

end

theorem Args.length_trees (initializer : String) :
    (args : Args parameters) → (args.trees initializer).length = args.kinds.length
  | .nil => rfl
  | .cons _ _ rest => congrArg (· + 1) (rest.length_trees initializer)

mutual

/-- No expression is compiled to a return. -/
theorem Expr.not_returnVoid (initializer : String) :
    (expr : Expr parameters) → .returnVoid ∉ expr.code initializer
  | .this | .parameter _ | .null | .int _ | .constant _ | .staticField _ _ _ => by
    simp [Expr.code]
  | .field receiver name kind => by
    simp [Expr.code, receiver.not_returnVoid initializer]
  | .binaryOp operator left right => by
    simp [Expr.code, left.not_returnVoid initializer, right.not_returnVoid initializer]
  | .staticCall owner name args returns => by
    simp [Expr.code, args.not_returnVoid initializer]
  | .methodCall kind receiver owner name args returns => by
    simp [Expr.code, receiver.not_returnVoid initializer, args.not_returnVoid initializer]
  | .new className args => by
    simp [Expr.code, args.not_returnVoid initializer]

theorem Args.not_returnVoid (initializer : String) :
    (args : Args parameters) → .returnVoid ∉ args.code initializer
  | .nil => by simp [Args.code]
  | .cons kind arg rest => by
    simp [Args.code, arg.not_returnVoid initializer, rest.not_returnVoid initializer]

end

/-! ### Assignments -/

/-- The assignment of an expression to a field of the object under construction. -/
structure Assignment (parameters : List Kind) where
  field : String
  value : Expr parameters

namespace Assignment

/-- The instructions of the assignment. -/
def code (initializer : String) (assignment : Assignment parameters) : List Instruction :=
  .loadLocal 0 :: (assignment.value.code initializer ++ [.putField assignment.field])

/-- What the assigned expression stands for. -/
def tree (initializer : String) (assignment : Assignment parameters) : Tree :=
  assignment.value.tree initializer

end Assignment

/-- A constructor that calls the constructor of its superclass and makes the assignments. -/
def constructor (declaringClass superclass initializer : String)
    (assignments : List (Assignment parameters)) : Body :=
  let start := ((Body.empty declaringClass superclass).withParameters parameters).superInit
  let instructions := assignments.flatMap (Assignment.code initializer)
  (instructions ++ [Instruction.returnVoid]).foldl Body.push start

end FieldFlow.Initializers
