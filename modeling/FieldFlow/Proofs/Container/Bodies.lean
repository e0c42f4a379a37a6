import FieldFlow.Container.Bodies
import FieldFlow.Proofs.Container.Bytes
import Mathlib.Tactic.IntervalCases

/-!
# Formats of the parts of a body

The readers and writers of kinds, constants, calls, instructions and bodies belong together.

## Main Definitions

* `Kind.Fits`, `Constant.Fits`, `Call.Fits`, `Instruction.Fits`, `Body.Fits`: all lengths can be
  written

## Main Statements

* `Bytes.kind_codes`, `Bytes.constant_codes`, `Bytes.call_codes`, `Bytes.instruction_codes`,
  `Bytes.body_codes`: the reader accepts exactly the bytes of the values that fit
-/

namespace FieldFlow

open Bytes (TextFits ListFits OptionFits)

/-! ### What can be written -/

/-- The name of the class, if there is one, can be written. -/
def Kind.Fits : Kind → Prop
  | reference name => TextFits name
  | _ => True

/-- The string of the literal, if it is one, can be written. -/
def Constant.Fits : Constant → Prop
  | string value => TextFits value
  | classLiteral name => TextFits name
  | _ => True

/-- The names and the list of arguments can be written. -/
structure Call.Fits (call : Call) : Prop where
  owner : TextFits call.owner
  name : TextFits call.name
  args : ListFits Kind.Fits call.args
  returns : OptionFits Kind.Fits call.returns

/-- The names and the parts of the instruction can be written. -/
def Instruction.Fits : Instruction → Prop
  | pushConst constant => constant.Fits
  | getStatic owner name kind => TextFits owner ∧ TextFits name ∧ kind.Fits
  | getField name kind => TextFits name ∧ kind.Fits
  | putField name => TextFits name
  | invoke call => call.Fits
  | new className => TextFits className
  | localName _ name => TextFits name
  | other mnemonic => TextFits mnemonic
  | _ => True

/-- The class names, the parameters and the instructions can be written. -/
structure Body.Fits (body : Body) : Prop where
  declaringClass : TextFits body.declaringClass
  superclass : TextFits body.superclass
  parameters : ListFits Kind.Fits body.parameters
  instructions : ListFits Instruction.Fits body.instructions

namespace Bytes

/-! ### Numbers of a fixed width -/

theorem int32_codes :
    Codes (fun _ => True) (fun value : Int32 => number 4 value.toUInt32.toNat) readInt32 := by
  refine (number_codes 4).map (fun value : Int32 => value.toUInt32.toNat) ?_ ?_ ?_
  · exact fun value => value.toUInt32.toNat_lt
  · intro value
    rw [UInt32.ofNat_toNat, Int32.toInt32_toUInt32]
  · intro n hn
    rw [UInt32.toUInt32_toInt32]
    exact UInt32.toNat_ofNat_of_lt hn

theorem int64_codes :
    Codes (fun _ => True) (fun value : Int64 => number 8 value.toUInt64.toNat) readInt64 := by
  refine (number_codes 8).map (fun value : Int64 => value.toUInt64.toNat) ?_ ?_ ?_
  · exact fun value => value.toUInt64.toNat_lt
  · intro value
    rw [UInt64.ofNat_toNat, Int64.toInt64_toUInt64]
  · intro n hn
    rw [UInt64.toUInt64_toInt64]
    exact UInt64.toNat_ofNat_of_lt hn

theorem slot_codes :
    Codes (fun _ => True) (fun slot : UInt16 => number 2 slot.toNat) readSlot := by
  refine (number_codes 2).map UInt16.toNat ?_ ?_ ?_
  · exact fun slot => slot.toNat_lt
  · exact fun slot => UInt16.ofNat_toNat
  · exact fun n hn => UInt16.toNat_ofNat_of_lt hn

/-! ### Kinds, operators and kinds of calls -/

theorem kind_codes : Codes Kind.Fits Kind.toBytes readKind := by
  refine codes_of_alternatives (by decide) ?_ ?_
  · intro index hindex input kind rest h
    interval_cases index
    case «8» =>
      obtain ⟨name, hfits, rfl, rfl⟩ := text_codes.of_map h
      exact ⟨hfits, (List.append_assoc _ _ _).symm⟩
    -- A primitive kind carries nothing.
    all_goals
      cases h
      exact ⟨trivial, rfl⟩
  · intro kind hfits
    cases kind with
    | boolean => exact ⟨0, by decide, [], rfl, fun _ => rfl⟩
    | byte => exact ⟨1, by decide, [], rfl, fun _ => rfl⟩
    | char => exact ⟨2, by decide, [], rfl, fun _ => rfl⟩
    | short => exact ⟨3, by decide, [], rfl, fun _ => rfl⟩
    | int => exact ⟨4, by decide, [], rfl, fun _ => rfl⟩
    | long => exact ⟨5, by decide, [], rfl, fun _ => rfl⟩
    | float => exact ⟨6, by decide, [], rfl, fun _ => rfl⟩
    | double => exact ⟨7, by decide, [], rfl, fun _ => rfl⟩
    | reference name => exact ⟨8, by decide, text name, rfl, text_codes.map_append hfits _⟩

theorem operator_codes : Codes (fun _ => True) Operator.toBytes readOperator := by
  refine codes_of_names (by decide) (by decide) ?_
  intro operator
  cases operator with
  | add => exact ⟨0, by decide, rfl⟩
  | sub => exact ⟨1, by decide, rfl⟩
  | mul => exact ⟨2, by decide, rfl⟩
  | div => exact ⟨3, by decide, rfl⟩
  | rem => exact ⟨4, by decide, rfl⟩
  | shl => exact ⟨5, by decide, rfl⟩
  | shr => exact ⟨6, by decide, rfl⟩
  | ushr => exact ⟨7, by decide, rfl⟩
  | and => exact ⟨8, by decide, rfl⟩
  | or => exact ⟨9, by decide, rfl⟩
  | xor => exact ⟨10, by decide, rfl⟩

theorem callKind_codes : Codes (fun _ => True) CallKind.toBytes readCallKind := by
  refine codes_of_names (by decide) (by decide) ?_
  intro kind
  cases kind with
  | virtual => exact ⟨0, by decide, rfl⟩
  | special => exact ⟨1, by decide, rfl⟩
  | static => exact ⟨2, by decide, rfl⟩
  | interface => exact ⟨3, by decide, rfl⟩

/-! ### Constants and calls -/

theorem constant_codes : Codes Constant.Fits Constant.toBytes readConstant := by
  refine codes_of_alternatives (by decide) ?_ ?_
  · intro index hindex input constant rest h
    interval_cases index
    · cases h
      exact ⟨trivial, rfl⟩
    · obtain ⟨value, -, rfl, rfl⟩ := int32_codes.of_map h
      exact ⟨trivial, (List.append_assoc _ _ _).symm⟩
    · obtain ⟨value, -, rfl, rfl⟩ := int64_codes.of_map h
      exact ⟨trivial, (List.append_assoc _ _ _).symm⟩
    · obtain ⟨bits, hbits, rfl, rfl⟩ := (number_codes 4).of_map h
      have hnat : (UInt32.ofNat bits).toNat = bits := UInt32.toNat_ofNat_of_lt' hbits
      refine ⟨trivial, ?_⟩
      simp only [Constant.toBytes, hnat, List.append_assoc]
    · obtain ⟨bits, hbits, rfl, rfl⟩ := (number_codes 8).of_map h
      have hnat : (UInt64.ofNat bits).toNat = bits := UInt64.toNat_ofNat_of_lt' hbits
      refine ⟨trivial, ?_⟩
      simp only [Constant.toBytes, hnat, List.append_assoc]
    · obtain ⟨value, hfits, rfl, rfl⟩ := text_codes.of_map h
      exact ⟨hfits, (List.append_assoc _ _ _).symm⟩
    · obtain ⟨name, hfits, rfl, rfl⟩ := text_codes.of_map h
      exact ⟨hfits, (List.append_assoc _ _ _).symm⟩
  · intro constant hfits
    cases constant with
    | null => exact ⟨0, by decide, [], rfl, fun _ => rfl⟩
    | int value => exact ⟨1, by decide, _, rfl, int32_codes.map_append trivial _⟩
    | long value => exact ⟨2, by decide, _, rfl, int64_codes.map_append trivial _⟩
    | float value =>
      refine ⟨3, by decide, _, rfl, fun rest => ?_⟩
      show (readNumber 4).map (fun n => Constant.float ⟨.ofNat n⟩) _ = _
      rw [(number_codes 4).map_append value.bits.toNat_lt, UInt32.ofNat_toNat]
    | double value =>
      refine ⟨4, by decide, _, rfl, fun rest => ?_⟩
      show (readNumber 8).map (fun n => Constant.double ⟨.ofNat n⟩) _ = _
      rw [(number_codes 8).map_append value.bits.toNat_lt, UInt64.ofNat_toNat]
    | string value => exact ⟨5, by decide, _, rfl, text_codes.map_append hfits _⟩
    | classLiteral name => exact ⟨6, by decide, _, rfl, text_codes.map_append hfits _⟩

theorem call_codes : Codes Call.Fits Call.toBytes readCall where
  iff {input call rest} := by
    simp only [readCall, andThen_eq_ok_iff, map_eq_ok_iff, callKind_codes.iff, text_codes.iff,
      kind_codes.list.iff, kind_codes.optional.iff]
    constructor
    · rintro ⟨kind, _, ⟨-, rfl⟩, owner, _, ⟨howner, rfl⟩, name, _, ⟨hname, rfl⟩, args, _,
        ⟨hargs, rfl⟩, returns, ⟨hreturns, rfl⟩, rfl⟩
      refine ⟨⟨howner, hname, hargs, hreturns⟩, ?_⟩
      simp only [Call.toBytes, List.append_assoc]
    · rintro ⟨⟨howner, hname, hargs, hreturns⟩, rfl⟩
      simp only [Call.toBytes, List.append_assoc]
      exact ⟨_, _, ⟨trivial, rfl⟩, _, _, ⟨howner, rfl⟩, _, _, ⟨hname, rfl⟩, _, _, ⟨hargs, rfl⟩,
        _, ⟨hreturns, rfl⟩, rfl⟩

/-! ### Instructions and bodies -/

theorem instruction_codes : Codes Instruction.Fits Instruction.toBytes readInstruction := by
  refine codes_of_alternatives (by decide) ?_ ?_
  · intro index hindex input instruction rest h
    interval_cases index
    case «1» =>
      obtain ⟨value, -, rfl, rfl⟩ := int64_codes.of_map h
      exact ⟨trivial, (List.append_assoc _ _ _).symm⟩
    case «2» =>
      obtain ⟨constant, hfits, rfl, rfl⟩ := constant_codes.of_map h
      exact ⟨hfits, (List.append_assoc _ _ _).symm⟩
    case «6» =>
      obtain ⟨operator, -, rfl, rfl⟩ := operator_codes.of_map h
      exact ⟨trivial, (List.append_assoc _ _ _).symm⟩
    case «7» =>
      obtain ⟨slot, -, rfl, rfl⟩ := slot_codes.of_map h
      exact ⟨trivial, (List.append_assoc _ _ _).symm⟩
    case «8» =>
      simp only [andThen_eq_ok_iff, map_eq_ok_iff, text_codes.iff, kind_codes.iff] at h
      obtain ⟨owner, _, ⟨howner, rfl⟩, name, _, ⟨hname, rfl⟩, kind, ⟨hkind, rfl⟩, rfl⟩ := h
      refine ⟨⟨howner, hname, hkind⟩, ?_⟩
      simp only [Instruction.toBytes, List.append_assoc]
    case «9» =>
      simp only [andThen_eq_ok_iff, map_eq_ok_iff, text_codes.iff, kind_codes.iff] at h
      obtain ⟨name, _, ⟨hname, rfl⟩, kind, ⟨hkind, rfl⟩, rfl⟩ := h
      refine ⟨⟨hname, hkind⟩, ?_⟩
      simp only [Instruction.toBytes, List.append_assoc]
    case «10» | «12» | «15» =>
      obtain ⟨name, hfits, rfl, rfl⟩ := text_codes.of_map h
      exact ⟨hfits, (List.append_assoc _ _ _).symm⟩
    case «11» =>
      obtain ⟨call, hfits, rfl, rfl⟩ := call_codes.of_map h
      exact ⟨hfits, (List.append_assoc _ _ _).symm⟩
    case «13» =>
      simp only [andThen_eq_ok_iff, map_eq_ok_iff, slot_codes.iff, text_codes.iff] at h
      obtain ⟨slot, _, ⟨-, rfl⟩, name, ⟨hname, rfl⟩, rfl⟩ := h
      refine ⟨hname, ?_⟩
      simp only [Instruction.toBytes, List.append_assoc]
    -- The others carry nothing.
    all_goals
      cases h
      exact ⟨trivial, rfl⟩
  · intro instruction hfits
    cases instruction with
    | pushNull => exact ⟨0, by decide, [], rfl, fun _ => rfl⟩
    | pushInt value => exact ⟨1, by decide, _, rfl, int64_codes.map_append trivial _⟩
    | pushConst constant => exact ⟨2, by decide, _, rfl, constant_codes.map_append hfits _⟩
    | pop => exact ⟨3, by decide, [], rfl, fun _ => rfl⟩
    | pop2 => exact ⟨4, by decide, [], rfl, fun _ => rfl⟩
    | dup => exact ⟨5, by decide, [], rfl, fun _ => rfl⟩
    | binaryOp operator => exact ⟨6, by decide, _, rfl, operator_codes.map_append trivial _⟩
    | loadLocal slot => exact ⟨7, by decide, _, rfl, slot_codes.map_append trivial _⟩
    | getStatic owner name kind =>
      obtain ⟨howner, hname, hkind⟩ := hfits
      refine ⟨8, by decide, text owner ++ (text name ++ kind.toBytes), ?_, fun rest => ?_⟩
      · simp only [Instruction.toBytes, List.append_assoc]
      · simp only [andThen_eq_ok_iff, map_eq_ok_iff, text_codes.iff, kind_codes.iff,
          List.append_assoc]
        exact ⟨_, _, ⟨howner, rfl⟩, _, _, ⟨hname, rfl⟩, _, ⟨hkind, rfl⟩, rfl⟩
    | getField name kind =>
      obtain ⟨hname, hkind⟩ := hfits
      refine ⟨9, by decide, text name ++ kind.toBytes, ?_, fun rest => ?_⟩
      · simp only [Instruction.toBytes, List.append_assoc]
      · simp only [andThen_eq_ok_iff, map_eq_ok_iff, text_codes.iff, kind_codes.iff,
          List.append_assoc]
        exact ⟨_, _, ⟨hname, rfl⟩, _, ⟨hkind, rfl⟩, rfl⟩
    | putField name => exact ⟨10, by decide, _, rfl, text_codes.map_append hfits _⟩
    | invoke call => exact ⟨11, by decide, _, rfl, call_codes.map_append hfits _⟩
    | new className => exact ⟨12, by decide, _, rfl, text_codes.map_append hfits _⟩
    | localName slot name =>
      refine ⟨13, by decide, number 2 slot.toNat ++ text name, ?_, fun rest => ?_⟩
      · simp only [Instruction.toBytes, List.append_assoc]
      · simp only [andThen_eq_ok_iff, map_eq_ok_iff, slot_codes.iff, text_codes.iff,
          List.append_assoc]
        exact ⟨_, _, ⟨trivial, rfl⟩, _, ⟨hfits, rfl⟩, rfl⟩
    | returnVoid => exact ⟨14, by decide, [], rfl, fun _ => rfl⟩
    | other mnemonic => exact ⟨15, by decide, _, rfl, text_codes.map_append hfits _⟩

theorem body_codes : Codes Body.Fits Body.toBytes readBody where
  iff {input body rest} := by
    simp only [readBody, andThen_eq_ok_iff, map_eq_ok_iff, text_codes.iff, kind_codes.list.iff,
      instruction_codes.list.iff]
    constructor
    · rintro ⟨declaringClass, _, ⟨hdeclaring, rfl⟩, superclass, _, ⟨hsuper, rfl⟩, parameters, _,
        ⟨hparameters, rfl⟩, instructions, ⟨hinstructions, rfl⟩, rfl⟩
      refine ⟨⟨hdeclaring, hsuper, hparameters, hinstructions⟩, ?_⟩
      simp only [Body.toBytes, List.append_assoc]
    · rintro ⟨⟨hdeclaring, hsuper, hparameters, hinstructions⟩, rfl⟩
      simp only [Body.toBytes, List.append_assoc]
      exact ⟨_, _, ⟨hdeclaring, rfl⟩, _, _, ⟨hsuper, rfl⟩, _, _, ⟨hparameters, rfl⟩,
        _, ⟨hinstructions, rfl⟩, rfl⟩

end Bytes

end FieldFlow
