import FieldFlow.Path

/-!
# Arguments

The command line: its options, its subcommands, and what it asks for.

## Main Definitions

* `Request`: what a command line asks for
* `Arguments.parse`: the request of a list of arguments

## Design Notes

Some options may stand before or after the name of the subcommand. Each option but the counted one
may be given once on either side, and after the name wins. The value of an option follows it as an
argument of its own, which may not look like an option, or is attached to it.

The first mistake decides, and asking for help or the version ends the reading. A value that is an
argument of its own is looked at only when the next argument has been taken up, so a bad one just
before the name of a subcommand does not keep help on that subcommand from being given.
-/

namespace FieldFlow

/-- How the report of an analysis is written. -/
inductive ReportFormat where
  | text
  | json
  deriving DecidableEq, Repr

/-- An operation with its operands. -/
inductive Operation where
  | analyze (files : List Path) (format : ReportFormat)
  | disassemble (file : Path)
  | convert (input output : Path)
  deriving DecidableEq, Repr

/-- An operation and the configuration file to use for it. -/
structure Request where
  settings : Option Path
  operation : Operation
  deriving DecidableEq, Repr

/-- Why there is no operation to carry out. -/
inductive Arguments.Stop where
  | misused
  | help
  | version
  deriving DecidableEq, Repr

namespace Arguments

/-! ### Options -/

/-- The subcommands. -/
inductive Subcommand where
  | analyze
  | disassemble
  | convert
  deriving DecidableEq, Repr

/-- The subcommand of the given name. -/
def Subcommand.named? (name : String) : Option Subcommand :=
  match name with
  | "analyze" => some analyze
  | "disasm" => some disassemble
  | "convert" => some convert
  | _ => none

/-- The options. -/
inductive Flag where
  | verbose
  | quiet
  | log
  | logFormat
  | config
  | format
  | output
  | help
  | version
  deriving DecidableEq, Repr

namespace Flag

/-- Whether an option takes a value. -/
def takesValue : Flag → Bool
  | log | logFormat | config | format | output => true
  | verbose | quiet | help | version => false

/-- Whether an option may be given after the name of a subcommand, or before any. -/
def isAllowed (subcommand : Option Subcommand) : Flag → Bool
  | format => subcommand = some .analyze
  | output => subcommand = some .convert
  | version => subcommand = none
  | _ => true

/-- The option of the given long name. -/
def long? (name : List Char) : Option Flag :=
  match String.ofList name with
  | "verbose" => some verbose
  | "quiet" => some quiet
  | "log" => some log
  | "log-format" => some logFormat
  | "config" => some config
  | "format" => some format
  | "output" => some output
  | "help" => some help
  | "version" => some version
  | _ => none

/-- The option of the given letter. -/
def short? (letter : Char) : Option Flag :=
  match letter with
  | 'v' => some verbose
  | 'q' => some quiet
  | 'c' => some config
  | 'o' => some output
  | 'h' => some help
  | 'V' => some version
  | _ => none

/-- Whether an option can have the given value. Names of files may not be empty. -/
def accepts (flag : Flag) (value : String) : Bool :=
  match flag with
  | log => ["error", "warn", "info", "debug", "trace"].contains value
  | logFormat => ["pretty", "json"].contains value
  | format => ["text", "json"].contains value
  | config | output => value ≠ ""
  | _ => false

end Flag

/-- The most operands that a subcommand takes, if there is a limit. -/
def Subcommand.operandLimit? : Subcommand → Option Nat
  | analyze => none
  | disassemble => some 1
  | convert => some 1

/-! ### What is given on one side of the subcommand -/

/-- The options and operands found so far. -/
structure Given where
  /-- Options that may not be given again, with their values. -/
  flags : List (Flag × String)
  /-- The operands, in order. -/
  operands : List String
  /-- The option before, if its value was an argument of its own that has not been looked at. -/
  pending : Option (Flag × String)

namespace Given

/-- Nothing yet. -/
def nothing : Given := ⟨[], [], none⟩

/-- The value of an option. -/
def value? (given : Given) (flag : Flag) : Option String :=
  (given.flags.find? (·.1 == flag)).map (·.2)

/-- Records an option, which may not be there yet. -/
def record (given : Given) (flag : Flag) (value : String) : Except Stop Given :=
  if given.flags.any (·.1 == flag) then .error .misused
  else .ok { given with flags := (flag, value) :: given.flags }

/-- Records an option with its value, if it can have that value. -/
def recordValue (given : Given) (flag : Flag) (value : String) : Except Stop Given :=
  if flag.accepts value then given.record flag value else .error .misused

/-- Records the option that is pending. -/
def settle (given : Given) : Except Stop Given :=
  match given.pending with
  | none => .ok given
  | some (flag, value) => ({ given with pending := none } : Given).recordValue flag value

/-- Adds an option that has no value. -/
def addSwitch (given : Given) (flag : Flag) : Except Stop Given := do
  let given ← given.settle
  match flag with
  | .help => .error .help
  | .version => .error .version
  | .verbose => .ok given
  | flag => given.record flag ""

/-- Adds an option with the value attached to it. -/
def addAttached (given : Given) (flag : Flag) (value : String) : Except Stop Given := do
  let given ← given.settle
  given.recordValue flag value

/-- Adds an option whose value is an argument of its own, to be looked at later. -/
def addDetached (given : Given) (flag : Flag) (value : String) : Except Stop Given := do
  let given ← given.settle
  .ok { given with pending := some (flag, value) }

/-- Adds an operand. It names a file, so it may not be empty. -/
def addOperand (limit : Option Nat) (given : Given) (operand : String) : Except Stop Given := do
  let given ← given.settle
  if operand = "" ∨ limit.any (· ≤ given.operands.length) then .error .misused
  else .ok { given with operands := given.operands ++ [operand] }

end Given

/-! ### Reading arguments -/

/-- What an argument is, by its first characters. -/
inductive Shape where
  /-- Two dashes alone: only operands follow. -/
  | separator
  | long (name : List Char) (value : Option (List Char))
  | short (letters : List Char)
  | word

/-- The shape of an argument. A dash alone is a word. -/
def shapeOf (argument : String) : Shape :=
  match argument.toList with
  | ['-', '-'] => .separator
  | '-' :: '-' :: rest =>
    match rest.dropWhile (· != '=') with
    | [] => .long rest none
    | _ :: value => .long (rest.takeWhile (· != '=')) (some value)
  | '-' :: letter :: letters => .short (letter :: letters)
  | _ => .word

/-- What letters after a single dash leave to be read. -/
inductive Cluster where
  | complete (given : Given)
  /-- The last letter is an option whose value is the next argument. -/
  | awaits (given : Given) (flag : Flag)

/-- Letters after a single dash, each an option. The first one that takes a value takes the rest of
the letters, without an equals sign in front of it. -/
def readLetters (subcommand : Option Subcommand) (given : Given) :
    List Char → Except Stop Cluster
  | [] => .ok (.complete given)
  | letter :: letters =>
    match (Flag.short? letter).filter (Flag.isAllowed subcommand) with
    | none => .error .misused
    | some flag =>
      if flag.takesValue then
        match letters with
        | [] => .ok (.awaits given flag)
        | '=' :: value => (given.addAttached flag (String.ofList value)).map .complete
        | value => (given.addAttached flag (String.ofList value)).map .complete
      else
        match given.addSwitch flag with
        | .error stop => .error stop
        | .ok given => readLetters subcommand given letters

/-- A long option, perhaps with a value attached. -/
def readLong (subcommand : Option Subcommand) (given : Given) (name : List Char)
    (value : Option (List Char)) : Except Stop Cluster :=
  match (Flag.long? name).filter (Flag.isAllowed subcommand), value with
  | none, _ => .error .misused
  | some flag, some value =>
    if flag.takesValue then (given.addAttached flag (String.ofList value)).map .complete
    else .error .misused
  | some flag, none =>
    if flag.takesValue then .ok (.awaits given flag)
    else (given.addSwitch flag).map .complete

/-- Whether an argument can be the value of the option before it. -/
def canBeValue (argument : String) : Bool :=
  match shapeOf argument with
  | .word => true
  | _ => false

/-- Adds operands. Before any subcommand there can be none. -/
def addOperands (subcommand : Option Subcommand) (given : Given) (operands : List String) :
    Except Stop Given :=
  operands.foldlM (Given.addOperand (subcommand.elim (some 0) (·.operandLimit?))) given

/-- Reads arguments up to the end, or before any subcommand up to its name. Returns what is given
and the arguments from the name on. -/
def readArguments (subcommand : Option Subcommand) (given : Given) :
    List String → Except Stop (Given × List String)
  | [] => .ok (given, [])
  | argument :: rest =>
    match shapeOf argument with
    | .separator => do
      let given ← addOperands subcommand given rest
      .ok (given, [])
    | .word =>
      match subcommand with
      | none => .ok (given, argument :: rest)
      | some _ => do
        let given ← addOperands subcommand given [argument]
        readArguments subcommand given rest
    | .long name value => do
      match ← readLong subcommand given name value with
      | .complete given => readArguments subcommand given rest
      | .awaits given flag =>
        match rest with
        | value :: rest =>
          if canBeValue value then do
            let given ← given.addDetached flag value
            readArguments subcommand given rest
          else .error .misused
        | [] => .error .misused
    | .short letters => do
      match ← readLetters subcommand given letters with
      | .complete given => readArguments subcommand given rest
      | .awaits given flag =>
        match rest with
        | value :: rest =>
          if canBeValue value then do
            let given ← given.addDetached flag value
            readArguments subcommand given rest
          else .error .misused
        | [] => .error .misused

/-! ### Requests -/

/-- The operation of a subcommand with what is given for it. -/
def operationOf (subcommand : Subcommand) (given : Given) : Except Stop Operation :=
  match subcommand, given.operands with
  | .analyze, first :: more =>
    let format := if given.value? .format = some "json" then .json else .text
    .ok (.analyze ((first :: more).map Path.mk) format)
  | .disassemble, [file] => .ok (.disassemble ⟨file⟩)
  | .convert, [input] =>
    match given.value? .output with
    | some output => .ok (.convert ⟨input⟩ ⟨output⟩)
    | none => .error .misused
  | _, _ => .error .misused

/-- The request for help on a subcommand, or on all. -/
def helpFor : List String → Stop
  | [] => .help
  | [name] => if name = "help" ∨ (Subcommand.named? name).isSome then .help else .misused
  | _ => .misused

/-- The request of a list of arguments. -/
def parse (arguments : List String) : Except Stop Request := do
  let (before, rest) ← readArguments none .nothing arguments
  match rest with
  | [] => .error .misused
  | name :: rest =>
    if name = "help" then .error (helpFor rest)
    else
      match Subcommand.named? name with
      | none => .error .misused
      | some subcommand => do
        let (after, _) ← readArguments (some subcommand) .nothing rest
        let after ← after.settle
        let operation ← operationOf subcommand after
        let before ← before.settle
        let settings := (after.value? .config).or (before.value? .config)
        pure ⟨settings.map Path.mk, operation⟩

end Arguments

end FieldFlow
