import FieldFlow.Boxing
import FieldFlow.State
import FieldFlow.Table

/-!
# Verdicts

Where the value of an assigned field comes from, and the mapping of all fields to parameters.

## Main Definitions

* `Binding`: the parameter that a field is set from
* `Verdict`: a field is bound to a parameter, independent of all, or derived from one
* `Verdict.of`: the verdict on a value
* `Mapping.ofState`: the verdicts on all assigned fields
-/

namespace FieldFlow

/-- The parameter that supplies a field, and its declared kind. -/
structure Binding where
  parameter : Nat
  kind : Kind
  deriving DecidableEq, Repr

/-- Where a value comes from. -/
inductive Verdict where
  /-- The value is a parameter, up to boxing or unboxing. -/
  | bound (binding : Binding)
  /-- No parameter can be reached from the value. -/
  | independent
  /-- The value is computed from a parameter. -/
  | derived
  deriving DecidableEq, Repr

namespace Verdict

/-- The parameter that a value is, if it is one. -/
def parameter? : Value → Option Binding
  | .parameter index kind => some ⟨index, kind⟩
  | _ => none

/-- The parameter that a value passes on: the parameter itself, the boxing of one, or the unboxing
of one whose kind is the wrapper class of the accessor. -/
def binding? (cells : Cells) : Value → Option Binding
  | .parameter index kind => some ⟨index, kind⟩
  | .staticCall owner name [arg] =>
    if Boxing.isBoxing owner name then parameter? (cells.resolve arg) else none
  | .methodCall receiver name [] =>
    (parameter? (cells.resolve receiver)).filter fun binding =>
      Boxing.isUnboxing binding.kind name
  | _ => none

/-- The verdict on a value. -/
def of (cells : Cells) (value : Value) : Verdict :=
  match binding? cells value with
  | some binding => bound binding
  | none => if cells.dependsOnParameter value then derived else independent

end Verdict

/-- The mapping of fields to parameters, and the fields without one. -/
structure Mapping where
  fields : Table Binding
  /-- The fields whose values depend on no parameter, with the text of these values, in the order
  of their assignment. -/
  excluded : List (String × String)

namespace Mapping

/-- The mapping of a list of assigned fields. The first field with a derived value is an error. -/
def ofAssignments (cells : Cells) : List (String × Value) → Except AnalysisError Mapping
  | [] => .ok ⟨.empty, []⟩
  | (field, value) :: assignments =>
    let value := cells.resolve value
    match Verdict.of cells value with
    | .derived => .error (.derivedValue field (cells.render value))
    | .bound binding => do
      let mapping ← ofAssignments cells assignments
      pure { mapping with fields := mapping.fields.insert field binding }
    | .independent => do
      let mapping ← ofAssignments cells assignments
      pure { mapping with excluded := (field, cells.render value) :: mapping.excluded }

/-- The mapping of the fields that a state has assigned. -/
def ofState (state : State) : Except AnalysisError Mapping :=
  ofAssignments state.cells state.assignments

end Mapping

end FieldFlow
