import FieldFlow.Body.Json
import FieldFlow.Proofs.Container.Canonical
import FieldFlow.Proofs.Json.RoundTrip

/-!
# Bodies through JSON

What the JSON text of a list of bodies is read as.

## Main Definitions

* `Body.constants`: the literals that a body pushes
* `Constant.isFloat`, `Constant.isFinite`: which literals JSON has no exact text for, or none at all

## Main Statements

* `Constant.ofJson?_echo`, `Instruction.ofJson?_echo`, `Body.ofJson?_echo`: what has no
  floating-point literal is read as it was written
* `Constant.ofJson?_echo_eq_none`, `Instruction.ofJson?_echo_eq_none`, `Body.ofJson?_echo_eq_none`:
  what has a NaN or an infinity is not read
* `Body.ofText_eq_ok_iff`: the texts that hold bodies
* `Body.ofText_toText`: lists of bodies

## Design Notes

A value that was written comes back as its echo, in which numbers have been rounded once more. So
every part is read from the echo of its JSON form, and the text is met only in the last theorem.
-/

namespace FieldFlow

namespace Json

variable {α : Type} {item : Json → Option α} {toJson : α → Json} {items : List α}

/-! ### Text and numbers -/

theorem echo_tagged (name : String) (payload : Json) :
    (tagged name payload).echo = tagged name payload.echo := by
  simp [tagged]

theorem variant?_tagged (name : String) (payload : Json) :
    (tagged name payload).variant? = some (name, some payload) :=
  rfl

theorem text?_string (text : String) : (string text).text? = some text :=
  rfl

theorem int32?_int (value : Int32) : (int value.toInt).int32? = some value := by
  rw [int32?, intWithin?, if_pos ⟨value.minValue_le_toInt, value.toInt_le⟩, Option.map_some,
    Int32.ofInt_toInt]

theorem int64?_int (value : Int64) : (int value.toInt).int64? = some value := by
  rw [int64?, intWithin?, if_pos ⟨value.minValue_le_toInt, value.toInt_le⟩, Option.map_some,
    Int64.ofInt_toInt]

theorem uint16?_int (value : UInt16) : (int value.toNat).uint16? = some value := by
  have hlt : value.toNat < UInt16.size := value.toNat_lt
  rw [uint16?, intWithin?, if_pos ⟨by omega, by omega⟩, Option.map_some, Int.toNat_natCast,
    UInt16.ofNat_toNat]

theorem isWord_int32 (value : Int32) : IsWord value.toInt := by
  have hlow := value.le_toInt
  have hhigh := value.toInt_lt
  exact ⟨by rw [Int64.toInt_minValue]; omega, by rw [UInt64.size]; omega⟩

theorem isWord_int64 (value : Int64) : IsWord value.toInt := by
  have hlow := value.le_toInt
  have hhigh := value.toInt_lt
  exact ⟨by rw [Int64.toInt_minValue]; omega, by rw [UInt64.size]; omega⟩

theorem isWord_uint16 (value : UInt16) : IsWord value.toNat := by
  have hhigh := value.toNat_lt
  exact ⟨by rw [Int64.toInt_minValue]; omega, by rw [UInt64.size]; omega⟩

/-! ### Lists and optional parts -/

/-- A list is read if every item is. -/
theorem list?_echo (h : ∀ x ∈ items, item (toJson x).echo = some x) :
    list? item (array (items.map toJson)).echo = some items := by
  rw [echo]
  show ((items.map toJson).map echo).mapM item = _
  induction items with
  | nil => rfl
  | cons x items ih =>
    rw [List.forall_mem_cons] at h
    rw [List.map_cons, List.map_cons, List.mapM_cons, h.1, ih h.2]
    rfl

/-- A list is not read if one item is not. -/
theorem list?_echo_eq_none (h : ∃ x ∈ items, item (toJson x).echo = none) :
    list? item (array (items.map toJson)).echo = none := by
  rw [echo]
  show ((items.map toJson).map echo).mapM item = _
  induction items with
  | nil => simp at h
  | cons x items ih =>
    simp only [List.mem_cons, exists_eq_or_imp] at h
    rw [List.map_cons, List.map_cons, List.mapM_cons]
    rcases h with h | h
    · rw [h]
      rfl
    · rw [ih h]
      cases item (toJson x).echo <;> rfl

/-- An item that is not null is read in place of null. -/
theorem optional?_eq_some {json : Json} {x : α} (hnull : item null = none)
    (h : item json = some x) : optional? item json = some (some x) := by
  cases json with
  | null => exact absurd (hnull.symm.trans h) nofun
  | _ => exact congrArg (Option.map some) h

end Json

/-! ### Kinds, operators and calls -/

theorem Kind.ofJson?_echo (kind : Kind) : Kind.ofJson? kind.toJson.echo = some kind := by
  cases kind with
  | reference name =>
    rw [toJson, Json.echo_tagged, Json.echo]
    rfl
  | _ =>
    rw [toJson, Json.echo]
    rfl

theorem Operator.ofJson?_echo (operator : Operator) :
    Operator.ofJson? operator.toJson.echo = some operator := by
  rw [toJson, Json.echo]
  cases operator <;> rfl

theorem CallKind.ofJson?_echo (kind : CallKind) :
    CallKind.ofJson? kind.toJson.echo = some kind := by
  rw [toJson, Json.echo]
  cases kind <;> rfl

theorem Kind.list?_echo (kinds : List Kind) :
    (Json.array (kinds.map Kind.toJson)).echo.list? Kind.ofJson? = some kinds :=
  Json.list?_echo fun kind _ => kind.ofJson?_echo

theorem Kind.optional?_echo (returns : Option Kind) :
    ((returns.map Kind.toJson).getD .null).echo.optional? Kind.ofJson? = some returns := by
  cases returns with
  | none =>
    rw [Option.map_none, Option.getD_none, Json.echo]
    rfl
  | some kind => exact Json.optional?_eq_some rfl kind.ofJson?_echo

theorem Call.ofJson?_echo (call : Call) : Call.ofJson? call.toJson.echo = some call := by
  have hfields : call.toJson.echo.record? ["kind", "owner", "name", "args", "returns"] ["returns"] =
      some [call.kind.toJson.echo, .string call.owner, .string call.name,
        (Json.array (call.args.map Kind.toJson)).echo,
        ((call.returns.map Kind.toJson).getD .null).echo] := by
    simp only [toJson, Json.echo, List.map_cons, List.map_nil]
    rfl
  rw [ofJson?, hfields]
  simp only [Option.bind_eq_bind, Option.bind_some, CallKind.ofJson?_echo, Json.text?_string,
    Kind.list?_echo, Kind.optional?_echo]
  rfl

/-! ### Constants -/

namespace Constant

/-- The floating-point literals. -/
def isFloat : Constant → Bool
  | float _ | double _ => true
  | _ => false

/-- The literal is no NaN and no infinity. -/
def isFinite : Constant → Bool
  | float value => (Decimal.single.decode value.bits.toNat).isFinite
  | double value => (Decimal.double.decode value.bits.toNat).isFinite
  | _ => true

/-- **Every literal but a floating-point one is read as it was written.** -/
theorem ofJson?_echo {constant : Constant} (h : constant.isFloat = false) :
    ofJson? constant.toJson.echo = some constant := by
  cases constant with
  | null =>
    rw [toJson, Json.echo]
    rfl
  | int value =>
    rw [toJson, Json.echo_tagged, Json.echo]
    exact congrArg (Option.map int) (Json.int32?_int value)
  | long value =>
    rw [toJson, Json.echo_tagged, Json.echo]
    exact congrArg (Option.map long) (Json.int64?_int value)
  | float value => cases h
  | double value => cases h
  | string value =>
    rw [toJson, Json.echo_tagged, Json.echo]
    rfl
  | classLiteral name =>
    rw [toJson, Json.echo_tagged, Json.echo]
    rfl

/-- **A NaN or an infinity is not read**, as it was written as null. -/
theorem ofJson?_echo_eq_none {constant : Constant} (h : constant.isFinite = false) :
    ofJson? constant.toJson.echo = none := by
  cases constant with
  | float value =>
    rw [toJson, Json.echo_tagged, Json.echo, Json.reread_of_not_isFinite h]
    rfl
  | double value =>
    rw [toJson, Json.echo_tagged, Json.echo, Json.reread_of_not_isFinite h]
    rfl
  | _ => cases h

end Constant

/-! ### Instructions -/

namespace Instruction

/-- The literal that the instruction pushes, if it pushes one. -/
def constant? : Instruction → Option Constant
  | pushConst constant => some constant
  | _ => none

theorem ofJson?_tagged {name : String} {payload : Json} {instruction : Instruction}
    (h : withOperands? name payload = some instruction) :
    ofJson? (.tagged name payload) = some instruction := by
  rw [ofJson?, Json.variant?_tagged]
  simp only [Option.bind_eq_bind, Option.bind_some, h]

/-- **Every instruction without a floating-point literal is read as it was written.** -/
theorem ofJson?_echo {instruction : Instruction}
    (h : ∀ constant ∈ instruction.constant?, constant.isFloat = false) :
    ofJson? instruction.toJson.echo = some instruction := by
  cases instruction with
  | pushNull | pop | pop2 | dup | returnVoid =>
    rw [toJson, Json.echo]
    rfl
  | pushInt value =>
    rw [toJson, Json.echo_tagged, Json.echo]
    exact ofJson?_tagged (congrArg (Option.map pushInt) (Json.int64?_int value))
  | pushConst constant =>
    rw [toJson, Json.echo_tagged]
    exact ofJson?_tagged (congrArg (Option.map pushConst) (Constant.ofJson?_echo (h constant rfl)))
  | binaryOp operator =>
    rw [toJson, Json.echo_tagged]
    exact ofJson?_tagged (congrArg (Option.map binaryOp) operator.ofJson?_echo)
  | loadLocal slot =>
    rw [toJson, Json.echo_tagged, Json.echo]
    exact ofJson?_tagged (congrArg (Option.map loadLocal) (Json.uint16?_int slot))
  | getStatic owner name kind =>
    simp only [toJson, Json.echo_tagged, Json.echo, List.map_cons, List.map_nil]
    refine ofJson?_tagged ?_
    show (Kind.ofJson? kind.toJson.echo).bind (fun kind => some (getStatic owner name kind)) = _
    rw [kind.ofJson?_echo]
    rfl
  | getField name kind =>
    simp only [toJson, Json.echo_tagged, Json.echo, List.map_cons, List.map_nil]
    refine ofJson?_tagged ?_
    show (Kind.ofJson? kind.toJson.echo).bind (fun kind => some (getField name kind)) = _
    rw [kind.ofJson?_echo]
    rfl
  | putField name =>
    simp only [toJson, Json.echo_tagged, Json.echo, List.map_cons, List.map_nil]
    exact ofJson?_tagged rfl
  | invoke call =>
    rw [toJson, Json.echo_tagged]
    exact ofJson?_tagged (congrArg (Option.map invoke) call.ofJson?_echo)
  | new className =>
    rw [toJson, Json.echo_tagged, Json.echo]
    exact ofJson?_tagged rfl
  | localName slot name =>
    simp only [toJson, Json.echo_tagged, Json.echo, List.map_cons, List.map_nil]
    refine ofJson?_tagged ?_
    show (Json.int slot.toNat).uint16?.bind (fun slot => some (localName slot name)) = _
    rw [Json.uint16?_int]
    rfl
  | other mnemonic =>
    simp only [toJson, Json.echo_tagged, Json.echo, List.map_cons, List.map_nil]
    exact ofJson?_tagged rfl

/-- **An instruction that pushes a NaN or an infinity is not read.** -/
theorem ofJson?_echo_eq_none {instruction : Instruction}
    (h : ∃ constant ∈ instruction.constant?, constant.isFinite = false) :
    ofJson? instruction.toJson.echo = none := by
  obtain ⟨constant, hmem, hfinite⟩ := h
  cases instruction with
  | pushConst =>
    cases hmem
    rw [toJson, Json.echo_tagged]
    have hread : withOperands? "push_const" constant.toJson.echo = none :=
      congrArg (Option.map pushConst) (Constant.ofJson?_echo_eq_none hfinite)
    rw [ofJson?, Json.variant?_tagged]
    simp only [Option.bind_eq_bind, Option.bind_some, hread]
    exact ite_self none
  | _ => cases hmem

end Instruction

/-! ### Nesting -/

section Nesting

open Json (Readable)

variable {nesting : ℕ}

theorem Json.Readable.tagged {payload : Json} (name : String) (h : Readable nesting payload) :
    Readable (nesting + 1) (.tagged name payload) := by
  refine .object ?_
  intro member hmem
  cases List.mem_singleton.1 hmem
  exact h

theorem Json.Readable.map {α : Type} {toJson : α → Json} {items : List α}
    (h : ∀ x ∈ items, Readable nesting (toJson x)) :
    Readable (nesting + 1) (.array (items.map toJson)) := by
  refine .array ?_
  rw [List.forall_mem_map]
  exact h

theorem Kind.readable (kind : Kind) (nesting : ℕ) : Readable (nesting + 1) kind.toJson := by
  cases kind with
  | reference name => exact (Readable.string nesting name).tagged "reference"
  | _ => exact .string _ _

theorem Constant.readable (constant : Constant) (nesting : ℕ) :
    Readable (nesting + 1) constant.toJson := by
  cases constant with
  | null => exact .string _ _
  | int value => exact (Readable.int nesting (Json.isWord_int32 value)).tagged "int"
  | long value => exact (Readable.int nesting (Json.isWord_int64 value)).tagged "long"
  | float value => exact (Readable.single nesting value).tagged "float"
  | double value => exact (Readable.double nesting value).tagged "double"
  | string value => exact (Readable.string nesting value).tagged "string"
  | classLiteral name => exact (Readable.string nesting name).tagged "class"

theorem Call.readable (call : Call) (nesting : ℕ) : Readable (nesting + 3) call.toJson := by
  refine .object ?_
  simp only [List.forall_mem_cons]
  refine ⟨.string _ _, .string _ _, .string _ _, .map fun kind _ => kind.readable nesting, ?_⟩
  cases call.returns with
  | none => exact ⟨.null _, nofun⟩
  | some kind => exact ⟨kind.readable (nesting + 1), nofun⟩

theorem Instruction.readable (instruction : Instruction) (nesting : ℕ) :
    Readable (nesting + 4) instruction.toJson := by
  cases instruction with
  | pushNull | pop | pop2 | dup | returnVoid => exact .string _ _
  | pushInt value => exact (Readable.int _ (Json.isWord_int64 value)).tagged "push_int"
  | pushConst constant => exact (constant.readable (nesting + 2)).tagged "push_const"
  | binaryOp operator => exact (Readable.string _ _).tagged "binary_op"
  | loadLocal slot => exact (Readable.int _ (Json.isWord_uint16 slot)).tagged "load_local"
  | getStatic owner name kind =>
    refine Readable.tagged "get_static" (.object ?_)
    simp only [List.forall_mem_cons]
    exact ⟨.string _ _, .string _ _, kind.readable (nesting + 1), nofun⟩
  | getField name kind =>
    refine Readable.tagged "get_field" (.object ?_)
    simp only [List.forall_mem_cons]
    exact ⟨.string _ _, kind.readable (nesting + 1), nofun⟩
  | putField name =>
    exact Readable.tagged "put_field" (.object (List.forall_mem_singleton.2 (.string _ _)))
  | invoke call => exact (call.readable nesting).tagged "invoke"
  | new className => exact (Readable.string _ _).tagged "new"
  | localName slot name =>
    refine Readable.tagged "local_name" (.object ?_)
    simp only [List.forall_mem_cons]
    exact ⟨.int _ (Json.isWord_uint16 slot), .string _ _, nofun⟩
  | other mnemonic =>
    exact Readable.tagged "other" (.object (List.forall_mem_singleton.2 (.string _ _)))

/-- **The JSON form of a body can be read** where six more arrays and objects may be open. -/
theorem Body.readable (body : Body) (nesting : ℕ) : Readable (nesting + 6) body.toJson := by
  refine .object ?_
  simp only [List.forall_mem_cons]
  exact ⟨.string _ _, .string _ _, .map fun kind _ => kind.readable (nesting + 3),
    .map fun instruction _ => instruction.readable nesting, nofun⟩

end Nesting

/-! ### Bodies -/

namespace Body

variable {body : Body} {bodies : List Body}

/-- The literals that the instructions of the body push. -/
def constants (body : Body) : List Constant :=
  body.instructions.filterMap Instruction.constant?

theorem mem_constants_of_mem {instruction : Instruction} {constant : Constant}
    (hmem : instruction ∈ body.instructions) (h : constant ∈ instruction.constant?) :
    constant ∈ body.constants :=
  List.mem_filterMap.2 ⟨instruction, hmem, h⟩

theorem echo_record? (body : Body) :
    body.toJson.echo.record? ["declaring_class", "superclass", "parameters", "instructions"] [] =
      some [.string body.declaringClass, .string body.superclass,
        (Json.array (body.parameters.map Kind.toJson)).echo,
        (Json.array (body.instructions.map Instruction.toJson)).echo] := by
  simp only [toJson, Json.echo, List.map_cons, List.map_nil]
  rfl

/-- **A body without floating-point literals is read as it was written.** -/
theorem ofJson?_echo (h : ∀ constant ∈ body.constants, constant.isFloat = false) :
    ofJson? body.toJson.echo = some body := by
  have hinstructions := Json.list?_echo fun instruction hmem => Instruction.ofJson?_echo
    fun constant hconstant => h constant (mem_constants_of_mem hmem hconstant)
  rw [ofJson?, echo_record?]
  simp only [Option.bind_eq_bind, Option.bind_some, Json.text?_string, Kind.list?_echo,
    hinstructions]
  rfl

/-- **A body that pushes a NaN or an infinity is not read.** -/
theorem ofJson?_echo_eq_none (h : ∃ constant ∈ body.constants, constant.isFinite = false) :
    ofJson? body.toJson.echo = none := by
  obtain ⟨constant, hmem, hfinite⟩ := h
  obtain ⟨instruction, hinstruction, hconstant⟩ := List.mem_filterMap.1 hmem
  have hinstructions := Json.list?_echo_eq_none
    ⟨instruction, hinstruction, Instruction.ofJson?_echo_eq_none ⟨constant, hconstant, hfinite⟩⟩
  rw [ofJson?, echo_record?]
  simp only [Option.bind_eq_bind, Option.bind_some, Json.text?_string, Kind.list?_echo,
    hinstructions]
  rfl

/-- A list of bodies is not read as one body, since a body is not the name of a class. -/
theorem ofJson?_array (bodies : List Body) :
    ofJson? (Json.array (bodies.map toJson)).echo = none := by
  rw [Json.echo, ofJson?, Json.record?]
  split
  next =>
    -- Four items could be the fields of one body, but the first of them would have to be a text.
    rcases bodies with _ | ⟨first, _ | ⟨second, _ | ⟨third, _ | ⟨fourth, _ | ⟨fifth, more⟩⟩⟩⟩⟩
    case cons.cons.cons.cons.nil =>
      have hfirst : (toJson first).echo.text? = none := by
        rw [toJson, Json.echo]
        rfl
      simp only [List.map_cons, List.map_nil, Option.bind_eq_bind, Option.bind_some, hfirst]
      rfl
    all_goals rfl
  next => rfl

/-- The JSON form of a list of bodies can be read. -/
theorem readable_list (bodies : List Body) :
    Json.Readable Json.nestingLimit (.array (bodies.map toJson)) :=
  .map fun body _ => body.readable 120

/-- A text holds bodies if they pass their checks and are read from its value, which nothing
follows. -/
theorem ofText_eq_ok_iff {text : String} :
    ofText text = .ok bodies ↔
      (∀ body ∈ bodies, body.check = .ok ()) ∧
        ∃ json rest, Json.readFront Json.nestingLimit text = .ok (json, rest) ∧
          listOfJson? json = some bodies ∧ Json.isFinished rest = true := by
  rw [ofText]
  constructor
  · intro h
    -- Each test that the reader makes is passed.
    split at h
    next => cases h
    next json rest hread =>
      split at h
      next => cases h
      next found hlist =>
        split at h
        next hfinished =>
          split at h
          next => cases h
          next hcheck =>
            cases h
            exact ⟨(checkAll_eq_ok_iff _).1 hcheck, json, rest, hread, hlist, hfinished⟩
        next => cases h
  · rintro ⟨hcheck, json, rest, hread, hlist, hfinished⟩
    rw [hread]
    dsimp only
    rw [hlist]
    dsimp only
    rw [if_pos hfinished, (checkAll_eq_ok_iff _).2 hcheck]

/-- The value that is written for bodies without floating-point literals is read as these bodies. -/
theorem listOfJson?_echo
    (h : ∀ body ∈ bodies, ∀ constant ∈ body.constants, constant.isFloat = false) :
    listOfJson? (Json.array (bodies.map toJson)).echo = some bodies := by
  rw [listOfJson?, Json.list?_echo fun body hmem => ofJson?_echo (h body hmem)]

/-- **Bodies through JSON.** Bodies that pass their checks and have no floating-point literals are
read as they were written. Bodies with a NaN or an infinity among their literals are written, but
not read. -/
theorem ofText_toText (bodies : List Body) :
    ((∀ body ∈ bodies, body.check = .ok ()) →
      (∀ body ∈ bodies, ∀ constant ∈ body.constants, constant.isFloat = false) →
        ofText (toText bodies) = .ok bodies) ∧
    ((∃ body ∈ bodies, ∃ constant ∈ body.constants, constant.isFinite = false) →
      ofText (toText bodies) = .error .shape) := by
  have hreadable : Json.Readable Json.nestingLimit (.array (bodies.map toJson)) :=
    .map fun body _ => body.readable 120
  have hread := hreadable.readFront_pretty
  constructor
  · intro hcheck hfloat
    have hlist := Json.list?_echo fun body hmem => ofJson?_echo (hfloat body hmem)
    rw [ofText, toText, hread]
    dsimp only
    rw [listOfJson?, hlist]
    dsimp only
    rw [(checkAll_eq_ok_iff bodies).2 hcheck]
    rfl
  · rintro ⟨body, hmem, hconstant⟩
    have hlist := Json.list?_echo_eq_none ⟨body, hmem, ofJson?_echo_eq_none hconstant⟩
    rw [ofText, toText, hread]
    dsimp only
    rw [listOfJson?, hlist, ofJson?_array]
    rfl

/-- A body with awkward strings and numbers at their bounds, and one with a NaN. -/
theorem ofText_toText_awkward :
    let awkward : Body := ⟨"demo.\"Note\"", "java.lang.Object", [.reference "[[J", .double],
      [.pushInt Int64.minValue, .pushConst (.int Int32.minValue), .loadLocal 65535,
        .pushConst (.string "\x00\t\\é"), .invoke ⟨.virtual, "demo.Note", "", [.long], none⟩]⟩
    let undefined : Body := ⟨"demo.Note", "java.lang.Object", [],
      [.pushConst (.double ⟨0x7FF8000000000000⟩)]⟩
    ofText (toText [awkward]) = .ok [awkward] ∧
      ofText (toText [awkward, undefined]) = .error .shape :=
  ⟨(ofText_toText _).1 (by decide) (by decide),
    (ofText_toText _).2 ⟨_, .tail _ (.head _), _, .head _, rfl⟩⟩

end Body

end FieldFlow
