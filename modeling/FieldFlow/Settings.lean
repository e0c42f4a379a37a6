import FieldFlow.Machine
import FieldFlow.Text.Blank
import FieldFlow.Toml.Printer
import FieldFlow.Toml.Reader

/-!
# Settings

The options of an analysis in a configuration file and in the environment.

## Main Definitions

* `Options.ofToml`: the options of a configuration file
* `Options.toToml?`: a configuration file for options
* `Options.withLimitFrom`: the limit given by the environment

## Design Notes

The options are the fields of one table. The table may be given as an array of its fields in
order, in which case further items are ignored. A date or a time stands for a table without any of
the fields. Missing fields keep their defaults, and unknown keys are ignored.
-/

namespace FieldFlow

/-- Why a configuration file is refused. -/
inductive SettingsFault where
  /-- The text is not TOML, or a field has a value of the wrong type. -/
  | unreadable
  /-- The limit on the number of instructions is zero. -/
  | noLimit
  deriving DecidableEq, Repr

/-- The fault in words, where it is about a value. -/
def SettingsFault.message? : SettingsFault → Option String
  | unreadable => none
  | noLimit => some "analyzer.max_instructions must be positive"

namespace Options

/-- The initializer name is a string. -/
def withInitializer? (options : Options) : Toml → Option Options
  | .string name => some { options with initializer := name }
  | _ => none

/-- The limit is an integer that is not negative. -/
def withLimit? (options : Options) : Toml → Option Options
  | .integer limit =>
    if 0 ≤ limit then some { options with maxInstructions := limit.toNat } else none
  | _ => none

/-- One entry of the table of options. -/
def withEntry? (options : Options) (entry : String × Toml) : Option Options :=
  match entry.1 with
  | "initializer_name" => options.withInitializer? entry.2
  | "max_instructions" => options.withLimit? entry.2
  | _ => some options

/-- The options of a document, where the given ones are the defaults. -/
def ofDocument? (defaults : Options) (entries : Toml.Entries) : Option Options :=
  match entries.get? "analyzer" with
  | none => some defaults
  | some (.table _ inner) => inner.foldlM withEntry? defaults
  | some .moment | some (.array []) => some defaults
  | some (.array [name]) => defaults.withInitializer? name
  | some (.array (name :: limit :: _)) => do
    let options ← defaults.withInitializer? name
    options.withLimit? limit
  | some _ => none

/-- The options of a configuration file, where the given ones are the defaults. -/
def ofToml (defaults : Options) (text : String) : Except SettingsFault Options :=
  match (Toml.ofText? text).bind defaults.ofDocument? with
  | none => .error .unreadable
  | some options => if options.maxInstructions = 0 then .error .noLimit else .ok options

/-- A configuration file for options. Integers of the format have 64 bits and a sign, so a larger
limit cannot be written. -/
def toToml? (options : Options) : Option String :=
  if options.maxInstructions ≤ Int64.maxValue.toInt then
    some ("[analyzer]\ninitializer_name = " ++ Toml.writeString options.initializer ++
      "\nmax_instructions = " ++ toString options.maxInstructions ++ "\n")
  else none

/-- A positive number of 64 bits, perhaps with a plus sign, between blanks. -/
def limitOf? (text : String) : Option Nat :=
  let digits :=
    match (Text.strip text).toList with
    | '+' :: digits => digits
    | digits => digits
  if digits ≠ [] ∧ digits.all Char.isDigit then
    let limit := Toml.digitsValue 10 digits
    if 0 < limit ∧ limit < UInt64.size then some limit else none
  else none

/-- The options with the limit that an environment variable gives. Any other text is ignored. -/
def withLimitFrom (options : Options) (text : Option String) : Options :=
  match text.bind limitOf? with
  | some limit => { options with maxInstructions := limit }
  | none => options

end Options

end FieldFlow
