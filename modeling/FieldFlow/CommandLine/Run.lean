import FieldFlow.Command
import FieldFlow.CommandLine.Arguments

/-!
# The program

What the program does for a command line: its standard output and its exit code.

## Main Definitions

* `Program.run`: the program, over any store of files

## Design Notes

The exit code is 2 for a command line that makes no sense, 1 for a failure, and 0 otherwise. The
report of an analysis is written even if constructors were rejected, which is a failure.
-/

namespace FieldFlow

/-- How a run of the program ends. -/
structure Ending where
  exitCode : Nat
  output : String
  deriving DecidableEq, Repr

namespace Program

variable {m : Type → Type} [Monad m] [FileStore m]

/-- The line that tells the version of the program. -/
def versionLine : String := "ctor 0.1.0\n"

/-- A short account of the command line. -/
def usage : String :=
  "Usage: ctor [OPTIONS] <COMMAND>\n\nCommands:\n" ++
  "  analyze  Analyze constructor bodies and print their field mappings\n" ++
  "  disasm   Print a disassembly of constructor bodies\n" ++
  "  convert  Convert bodies between JSON and the binary container\n"

/-- A run that fails without output. -/
def failed : Ending := ⟨1, ""⟩

/-- The report of an analysis in the format asked for. -/
def report (format : ReportFormat) (batch : Batch) : String :=
  match format with
  | .text => batch.toText
  | .json => batch.toJsonText

/-- Carries out an operation. -/
def perform (options : Options) : Operation → m Ending
  | .analyze files format => do
    match ← Command.analyze files options with
    | .error _ => return failed
    | .ok batch => return ⟨if batch.isSuccess then 0 else 1, report format batch⟩
  | .disassemble file => do
    match ← Command.disassemble file with
    | .error _ => return failed
    | .ok text => return ⟨0, text ++ "\n"⟩
  | .convert input output => do
    match ← Command.convert input output with
    | .error _ => return failed
    | .ok () => return ⟨0, ""⟩

/-- Runs the program on a list of arguments. The limit is the text of the environment variable
that gives a default for the limit on the number of instructions. -/
def run (arguments : List String) (limit : Option String) : m Ending := do
  match Arguments.parse arguments with
  | .error .misused => return ⟨2, ""⟩
  | .error .help => return ⟨0, usage⟩
  | .error .version => return ⟨0, versionLine⟩
  | .ok request =>
    match ← Command.loadOptions (({} : Options).withLimitFrom limit) request.settings with
    | .error _ => return failed
    | .ok options => perform options request.operation

end Program

end FieldFlow
