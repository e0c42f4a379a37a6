import FieldFlow.Batch
import FieldFlow.Body.Json

/-!
# Reports

The outcome of a batch as text and as JSON.

## Main Definitions

* `Batch.toText`: a block for each accepted class, then a line for each failure
* `Batch.toJsonText`: the same as one JSON value
-/

namespace FieldFlow

namespace Analysis

/-- The line of one field. The debug name of the parameter is shown if all names are known. -/
def fieldLine (analysis : Analysis) (field : String) (binding : Binding) : String :=
  let name :=
    match analysis.parameterNames.bind fun names => names[binding.parameter]? with
    | some name => " " ++ name
    | none => ""
  "  " ++ field ++ " <- p" ++ toString binding.parameter ++ name ++ " : " ++ binding.kind.text

/-- The lines of all fields, in the order of their names. -/
def fieldLines (analysis : Analysis) : List String :=
  if analysis.mapping.fields.isEmpty then ["  (no parameter-backed fields)"]
  else analysis.mapping.fields.entries.map fun (field, binding) => analysis.fieldLine field binding

end Analysis

/-- The JSON form of a binding. -/
def Binding.toJson (binding : Binding) : Json :=
  .object [("parameter", .int binding.parameter), ("kind", binding.kind.toJson)]

/-- The JSON form of a mapping. -/
def Mapping.toJson (mapping : Mapping) : Json :=
  .object (mapping.fields.entries.map fun (field, binding) => (field, binding.toJson))

namespace Analysis

/-- The JSON form of the debug names. -/
def namesJson (analysis : Analysis) : Json :=
  match analysis.parameterNames with
  | some names => .array (names.map .string)
  | none => .null

/-- The JSON form of an analysis. -/
def toJson (analysis : Analysis) : Json :=
  .object [("fields", analysis.mapping.toJson), ("parameter_names", analysis.namesJson)]

end Analysis

/-- The JSON form of a failure. -/
def Failure.toJson (failure : Failure) : Json :=
  .object [
    ("class", .string failure.declaringClass),
    ("code", .string failure.error.code),
    ("message", .string failure.error.message)]

namespace Batch

/-- The lines of the report. -/
def lines (batch : Batch) : List String :=
  (batch.results.entries.flatMap fun (className, analysis) => className :: analysis.fieldLines) ++
    batch.failures.map fun failure => "error: " ++ failure.line

/-- The report as text. -/
def toText (batch : Batch) : String :=
  String.join (batch.lines.map fun line => line ++ "\n")

/-- The report as a JSON value. -/
def toJson (batch : Batch) : Json :=
  .object [
    ("results",
      .object (batch.results.entries.map fun (className, analysis) =>
        (className, analysis.toJson))),
    ("failures", .array (batch.failures.map Failure.toJson))]

/-- The report as JSON text. -/
def toJsonText (batch : Batch) : String :=
  batch.toJson.pretty ++ "\n"

end Batch

end FieldFlow
