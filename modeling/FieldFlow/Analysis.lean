import FieldFlow.Machine
import FieldFlow.Verdict

/-!
# Analysis of a constructor

A constructor is a trivial initializer if it sets each field from at most one parameter, unchanged
up to boxing. The analysis decides whether it is, and which parameter feeds which field.

## Main Definitions

* `Analysis`: the mapping and the debug names of an accepted constructor
* `Body.analyze`: the analysis
-/

namespace FieldFlow

/-- What is known of an accepted constructor. -/
structure Analysis where
  mapping : Mapping
  /-- The debug names of the parameters, if each has one. -/
  parameterNames : Option (List String)

namespace Analysis

/-- The parameter that supplies a field. -/
def parameterOf (analysis : Analysis) (field : String) : Option Nat :=
  (analysis.mapping.fields.get? field).map (·.parameter)

end Analysis

/-- Runs a body and decides on the fields that it has assigned. -/
def Body.analyze (body : Body) (options : Options) : Except AnalysisError Analysis := do
  let state ← Machine.run body options
  let mapping ← Mapping.ofState state
  pure ⟨mapping, state.parameterNames⟩

end FieldFlow
