import FieldFlow.CommandLine.Run

/-!
# Entry point

The program on the files of the system.
-/

namespace FieldFlow

/-- The fault behind an error of the system. -/
def FileFault.ofSystem : IO.Error → FileFault
  | .noFileOrDirectory .. => .notFound
  | .inappropriateType .. => .isDirectory
  | _ => .other

instance : FileStore IO where
  read path := do
    try
      let bytes ← IO.FS.readBinFile path.text
      return .ok bytes.data.toList
    catch error => return .error (.ofSystem error)
  write path bytes := do
    try
      IO.FS.writeBinFile path.text ⟨⟨bytes⟩⟩
      return .ok ()
    catch error => return .error (.ofSystem error)
  isFile path := do
    let file := (← IO.currentDir) / path.text
    if ← file.pathExists then return !(← file.isDir) else return false

/-- The environment variable with a default for the limit on the number of instructions. -/
def limitVariable : String := "CTOR_MAX_INSTRUCTIONS"

end FieldFlow

open FieldFlow in
def main (arguments : List String) : IO UInt32 := do
  let ending ← Program.run arguments (← IO.getEnv limitVariable)
  IO.print ending.output
  return ending.exitCode.toUInt32
