import FieldFlow.Body.Listing
import FieldFlow.Container.Basic
import FieldFlow.Files
import FieldFlow.Report
import FieldFlow.Settings

/-!
# Commands

The operations on files of constructor bodies: analysis, disassembly and conversion.

## Main Definitions

* `BodyFormat`: the two forms of a file of bodies, told apart by its extension
* `Command.readBodies`, `Command.writeBodies`: such files
* `Command.analyze`, `Command.disassemble`, `Command.convert`: the operations
* `Command.loadOptions`: the options of a configuration file

## Design Notes

All files are read before anything is written, so a command that fails on its input leaves every
file as it was.
-/

namespace FieldFlow

/-- The form of a file of bodies. -/
inductive BodyFormat where
  | json
  | binary
  deriving DecidableEq, Repr

/-- Files with the extension `json`, in letters of either case, hold JSON; all others are
containers. -/
def BodyFormat.of (path : Path) : BodyFormat :=
  match path.extension? with
  | some extension =>
    if extension.map Char.toLower = ['j', 's', 'o', 'n'] then .json else .binary
  | none => .binary

/-- What lies behind a failed file command. -/
inductive CommandCause where
  | file (fault : FileFault)
  /-- The file should be text, but is not UTF-8. -/
  | notText
  | text (error : BodyTextError)
  | container (error : ContainerError)
  deriving DecidableEq, Repr

/-- Why a file command fails. -/
inductive CommandError where
  | read (path : Path) (cause : CommandCause)
  | parse (path : Path) (error : BodyTextError)
  | decode (path : Path) (error : ContainerError)
  | write (path : Path) (fault : FileFault)
  | ontoItself (path : Path)
  deriving DecidableEq, Repr

namespace CommandError

/-- The error in words, without what lies behind it. -/
def message : CommandError → String
  | read path _ => "failed to read " ++ path.text
  | parse path _ => "failed to parse " ++ path.text
  | decode path _ => "failed to decode " ++ path.text
  | write path _ => "failed to write " ++ path.text
  | ontoItself path => "refusing to convert " ++ path.text ++ " onto itself"

/-- What lies behind the error. -/
def cause? : CommandError → Option CommandCause
  | read _ cause => some cause
  | parse _ error => some (.text error)
  | decode _ error => some (.container error)
  | write _ fault => some (.file fault)
  | ontoItself _ => none

end CommandError

/-- A configuration file that is refused. -/
structure SettingsError where
  path : Path
  fault : SettingsFault
  deriving DecidableEq, Repr

/-- The error in words, where it is about a value. -/
def SettingsError.message? (error : SettingsError) : Option String :=
  error.fault.message?.map fun message =>
    "Configuration error in " ++ error.path.text ++ ": " ++ message

namespace Command

variable {m : Type → Type} [Monad m] [FileStore m]

/-- The text that bytes stand for in UTF-8. -/
def textOf? (bytes : List UInt8) : Option String :=
  String.fromUTF8? ⟨⟨bytes⟩⟩

/-- The bytes of a text in UTF-8. -/
def bytesOf (text : String) : List UInt8 :=
  text.toByteArray.data.toList

/-! ### Files of bodies -/

/-- The bodies that bytes of a format hold. The path is that of the file, for errors. -/
def bodiesOf (path : Path) (bytes : List UInt8) : Except CommandError (List Body) :=
  match BodyFormat.of path with
  | .json =>
    match textOf? bytes with
    | none => .error (.read path .notText)
    | some text =>
      match Body.ofText text with
      | .ok bodies => .ok bodies
      | .error error => .error (.parse path error)
  | .binary =>
    match Container.decode bytes with
    | .ok bodies => .ok bodies
    | .error error => .error (.decode path error)

/-- The bytes that hold bodies in the format of a path. -/
def bytesFor (path : Path) (bodies : List Body) : List UInt8 :=
  match BodyFormat.of path with
  | .json => bytesOf (Body.toText bodies)
  | .binary => Container.encode bodies

/-- Reads a file of bodies. -/
def readBodies (path : Path) : m (Except CommandError (List Body)) := do
  match ← FileStore.read path with
  | .error fault => return .error (.read path (.file fault))
  | .ok bytes => return bodiesOf path bytes

/-- Writes a file of bodies. -/
def writeBodies (path : Path) (bodies : List Body) : m (Except CommandError Unit) := do
  match ← FileStore.write path (bytesFor path bodies) with
  | .error fault => return .error (.write path fault)
  | .ok () => return .ok ()

/-- Reads files of bodies one after another, up to the first that fails. -/
def readAll : List Path → m (Except CommandError (List Body))
  | [] => return .ok []
  | path :: paths => do
    match ← readBodies path with
    | .error error => return .error error
    | .ok bodies =>
      match ← readAll paths with
      | .error error => return .error error
      | .ok more => return .ok (bodies ++ more)

/-! ### Operations -/

/-- Analyzes the bodies of all files together. -/
def analyze (paths : List Path) (options : Options) : m (Except CommandError Batch) := do
  match ← readAll paths with
  | .error error => return .error error
  | .ok bodies => return .ok (.ofBodies bodies options)

/-- The listing of a file. -/
def disassemble (path : Path) : m (Except CommandError String) := do
  match ← readBodies path with
  | .error error => return .error error
  | .ok bodies => return .ok (Body.disassemble bodies)

/-- Writes the bodies of one file to another, each in the format of its extension. -/
def convert (input output : Path) : m (Except CommandError Unit) := do
  if input.isSame output then return .error (.ontoItself input)
  else
    match ← readBodies input with
    | .error error => return .error error
    | .ok bodies => writeBodies output bodies

/-! ### Options -/

/-- The configuration file that is used if none is named. -/
def defaultSettings : Path := ⟨"ctor.toml"⟩

/-- The options of a configuration file. -/
def loadFrom (defaults : Options) (path : Path) : m (Except SettingsError Options) := do
  match ← FileStore.read path with
  | .error _ => return .error ⟨path, .unreadable⟩
  | .ok bytes =>
    match textOf? bytes with
    | none => return .error ⟨path, .unreadable⟩
    | some text =>
      match defaults.ofToml text with
      | .ok options => return .ok options
      | .error fault => return .error ⟨path, fault⟩

/-- The options of the named file, which has to exist, or of the default file if there is one. -/
def loadOptions (defaults : Options) (path : Option Path) :
    m (Except SettingsError Options) := do
  match path with
  | some path => loadFrom defaults path
  | none =>
    if ← FileStore.isFile defaultSettings then loadFrom defaults defaultSettings
    else return .ok defaults

end Command

end FieldFlow
