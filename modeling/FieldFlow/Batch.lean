import FieldFlow.Analysis

/-!
# Batches

The analysis of many constructors, each on its own.

## Main Definitions

* `Failure`: a rejected constructor
* `Batch`: the results by class, and the failures
* `Batch.ofBodies`: the analysis of a list of bodies
* `Batch.summary?`: the failures in one text
-/

namespace FieldFlow

/-- A rejected constructor. -/
structure Failure where
  declaringClass : String
  error : AnalysisError
  deriving DecidableEq, Repr

/-- The failure as one line of text. -/
def Failure.line (failure : Failure) : String :=
  failure.declaringClass ++ ": " ++ failure.error.message

/-- The outcome of analyzing many constructors. -/
structure Batch where
  results : Table Analysis
  /-- The failures, in the order of the first body of each class. -/
  failures : List Failure

namespace Batch

/-- The outcome for no constructors. -/
def empty : Batch := ⟨.empty, []⟩

/-- Whether every constructor was accepted. -/
def isSuccess (batch : Batch) : Bool :=
  batch.failures.isEmpty

/-- Whether a class has a failure already. -/
def hasFailure (batch : Batch) (declaringClass : String) : Bool :=
  batch.failures.any (·.declaringClass == declaringClass)

/-- Adds a failure after those there are. -/
def addFailure (batch : Batch) (failure : Failure) : Batch :=
  { batch with failures := batch.failures ++ [failure] }

/-- Whether a class declares more than one body of a list. -/
def isRepeated (bodies : List Body) (declaringClass : String) : Bool :=
  1 < bodies.countP (·.declaringClass == declaringClass)

/-- Adds the outcome of one body. A class may contribute one constructor only; if it has more, it
fails once, whatever they are. -/
def add (bodies : List Body) (options : Options) (batch : Batch) (body : Body) : Batch :=
  if isRepeated bodies body.declaringClass then
    if batch.hasFailure body.declaringClass then batch
    else batch.addFailure ⟨body.declaringClass, .unsupported .severalConstructors⟩
  else
    match body.analyze options with
    | .ok analysis => { batch with results := batch.results.insert body.declaringClass analysis }
    | .error error => batch.addFailure ⟨body.declaringClass, error⟩

/-- Analyzes every body of a list. A failure does not keep the others from being analyzed. -/
def ofBodies (bodies : List Body) (options : Options) : Batch :=
  bodies.foldl (add bodies options) empty

/-- All failures in one text, if there are any. -/
def summary? (batch : Batch) : Option String :=
  if batch.failures.isEmpty then none
  else
    some (toString batch.failures.length ++ " constructor(s) failed analysis:\n" ++
      String.intercalate "\n" (batch.failures.map fun failure => "  " ++ failure.line))

end Batch

end FieldFlow
