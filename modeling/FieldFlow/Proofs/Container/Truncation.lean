import FieldFlow.Proofs.Container.Canonical

/-!
# Files that end too early

A file that was cut off anywhere is refused because it ends too early. Nothing in the part that is
left is taken for a mistake.

## Main Definitions

* `Bytes.Steady`: a reader takes nothing back when more input follows, except that there was no more

## Main Statements

* `Bytes.Steady.andThen`, `Bytes.Steady.list`, `Bytes.Steady.optional`: readers made of steady
  readers
* `Bytes.Codes.read_of_cut`: a steady reader misses the bytes that were cut off behind a value
* `Container.decode_of_cut`: the same for files, some of which do not even have a whole header

## Design Notes

A cut may fall inside any length, tag, number or string, so what is left need not be made of the
bytes of whole parts. The reader on the bytes before the cut is therefore compared with the same
reader on all of the bytes: as far as the former gets, it does what the latter does.
-/

namespace FieldFlow

namespace Bytes

variable {α β : Type}

/-! ### Readers as one after another -/

theorem readNumber_eq (count : Nat) : readNumber count = (readBytes count).map value := by
  funext input
  rw [readNumber, Reader.map]
  cases readBytes count input <;> rfl

theorem readAlternative_eq (alternatives : Nat) :
    readAlternative alternatives = (readNumber 4).andThen fun index input =>
      if index < alternatives then .ok (index, input)
      else .error (.noAlternative index alternatives) := by
  funext input
  rw [readAlternative, Reader.andThen]
  cases readNumber 4 input <;> rfl

theorem readText_eq :
    readText = (readNumber 8).andThen fun count => (readBytes count).andThen fun bytes input =>
      match String.fromUTF8? ⟨⟨bytes⟩⟩ with
      | some text => .ok (text, input)
      | none => .error .notText := by
  funext input
  rw [readText, Reader.andThen]
  cases readNumber 8 input with
  | error fault => rfl
  | ok result =>
    dsimp only
    rw [Reader.andThen]
    cases readBytes result.1 result.2 <;> rfl

theorem readItems_succ (item : Reader α) (count : Nat) :
    readItems item (count + 1) =
      item.andThen fun value => (readItems item count).map (value :: ·) := by
  funext input
  rw [readItems, Reader.andThen]
  cases item input with
  | error fault => rfl
  | ok result =>
    dsimp only
    rw [Reader.map]
    cases readItems item count result.2 <;> rfl

theorem readList_eq (item : Reader α) :
    readList item = (readNumber 8).andThen (readItems item) := by
  funext input
  rw [readList, Reader.andThen]
  cases readNumber 8 input <;> rfl

/-- What follows the tag of an optional value. -/
def readTagged (item : Reader α) : Nat → Reader (Option α)
  | 0 => nothing none
  | 1 => item.map some
  | tag => fun _ => .error (.noTag tag)

theorem readOptional_eq (item : Reader α) :
    readOptional item = (readNumber 1).andThen (readTagged item) := by
  funext input
  rw [readOptional, Reader.andThen]
  cases readNumber 1 input with
  | error fault => rfl
  | ok result =>
    obtain ⟨_ | _ | tag, rest⟩ := result
    · rfl
    · simp only [readTagged, Reader.map]
    · rfl

/-! ### Steady readers -/

/-- A reader that has read a value, or has found a fault, does the same when more input follows.
Only that the input has ended may turn out to be wrong. -/
structure Steady (read : Reader α) : Prop where
  value {input : List UInt8} {value : α} {rest : List UInt8} (h : read input = .ok (value, rest))
    (more : List UInt8) : read (input ++ more) = .ok (value, rest ++ more)
  fault {input : List UInt8} {fault : Fault} (h : read input = .error fault)
    (other : fault ≠ .truncated) (more : List UInt8) : read (input ++ more) = .error fault

/-- **A steady reader misses what was cut off.** Without some of the last bytes of a value that
fits, the input ends too early. -/
theorem Codes.read_of_cut {fits : α → Prop} {write : α → List UInt8} {read : Reader α} {value : α}
    {bytes missing : List UInt8} (h : Codes fits write read) (hsteady : Steady read)
    (hfits : fits value) (hcut : write value = bytes ++ missing) (hmissing : missing ≠ []) :
    read bytes = .error .truncated := by
  have hwhole : read (bytes ++ missing) = .ok (value, []) := by
    rw [← hcut, ← List.append_nil (write value)]
    exact h.read_append hfits []
  cases hread : read bytes with
  | ok result =>
    obtain ⟨found, rest⟩ := result
    -- The missing bytes would be left over from the whole, and nothing is left over from it.
    have hmore := hsteady.value hread missing
    rw [hwhole] at hmore
    have hrest : [] = rest ++ missing := congrArg Prod.snd (Except.ok.inj hmore)
    exact absurd (List.append_eq_nil_iff.1 hrest.symm).2 hmissing
  | error fault =>
    by_cases hfault : fault = .truncated
    · rw [hfault]
    · have hmore := hsteady.fault hread hfault missing
      rw [hwhole] at hmore
      cases hmore

namespace Steady

variable {reader item : Reader α} {next : α → Reader β}

/-- A reader that reads nothing is steady. -/
theorem nothing (value : α) : Steady (nothing value) where
  value h more := by
    cases h
    rfl
  fault h := by cases h

/-- So is one that never succeeds. -/
theorem failing (fault : Fault) : Steady (fun _ => .error fault : Reader α) where
  value h := by cases h
  fault h _ more := by
    cases h
    rfl

theorem andThen (h : Steady reader) (hnext : ∀ value, Steady (next value)) :
    Steady (reader.andThen next) where
  value hread more := by
    obtain ⟨first, middle, hfirst, hsecond⟩ := andThen_eq_ok_iff.1 hread
    exact andThen_eq_ok_iff.2
      ⟨first, middle ++ more, h.value hfirst more, (hnext first).value hsecond more⟩
  fault {input fault} hread hfault more := by
    rw [Reader.andThen] at hread ⊢
    cases hfirst : reader input with
    | error found =>
      rw [hfirst] at hread
      cases hread
      rw [h.fault hfirst hfault more]
    | ok result =>
      rw [hfirst] at hread
      rw [h.value hfirst more]
      exact (hnext result.1).fault hread hfault more

theorem map (h : Steady reader) (f : α → β) : Steady (reader.map f) :=
  h.andThen fun value => nothing (f value)

/-! ### Numbers, strings, lists and optional values -/

theorem bytes (count : Nat) : Steady (readBytes count) where
  value h more := by
    obtain ⟨hlength, rfl⟩ := readBytes_eq_ok_iff.1 h
    exact readBytes_eq_ok_iff.2 ⟨hlength, List.append_assoc _ _ _⟩
  fault h hfault more := by
    rw [readBytes] at h
    split at h
    · cases h
    · cases h
      exact absurd rfl hfault

theorem number (count : Nat) : Steady (readNumber count) := by
  rw [readNumber_eq]
  exact (bytes count).map _

theorem alternative (alternatives : Nat) : Steady (readAlternative alternatives) := by
  rw [readAlternative_eq]
  refine (number 4).andThen fun index => ?_
  split
  · exact nothing index
  · exact failing _

theorem text : Steady readText := by
  rw [readText_eq]
  refine (number 8).andThen fun count => (bytes count).andThen fun found => ?_
  split
  · exact nothing _
  · exact failing _

theorem items (h : Steady item) (count : Nat) : Steady (readItems item count) := by
  induction count with
  | zero => exact nothing []
  | succ count ih =>
    rw [readItems_succ]
    exact h.andThen fun value => ih.map _

theorem list (h : Steady item) : Steady (readList item) := by
  rw [readList_eq]
  exact (number 8).andThen h.items

theorem optional (h : Steady item) : Steady (readOptional item) := by
  rw [readOptional_eq]
  refine (number 1).andThen fun tag => ?_
  rcases tag with _ | _ | tag
  · exact nothing none
  · exact h.map some
  · exact failing _

/-! ### The parts of a body -/

theorem kind : Steady readKind := by
  refine (alternative 9).andThen fun index => ?_
  split
  case h_9 => exact text.map _
  -- A primitive kind carries nothing.
  all_goals exact nothing _

theorem int64 : Steady readInt64 :=
  (number 8).map _

theorem slot : Steady readSlot :=
  (number 2).map _

theorem constant : Steady readConstant := by
  refine (alternative 7).andThen fun index => ?_
  split
  case h_1 => exact nothing _
  case h_2 => exact ((number 4).map _).map _
  case h_3 => exact int64.map _
  case h_4 => exact (number 4).map _
  case h_5 => exact (number 8).map _
  case h_6 | h_7 => exact text.map _

theorem call : Steady readCall := by
  refine ((alternative 4).map _).andThen fun kind => ?_
  refine text.andThen fun owner => text.andThen fun name => ?_
  exact Steady.kind.list.andThen fun args => Steady.kind.optional.map _

theorem instruction : Steady readInstruction := by
  refine (alternative 16).andThen fun index => ?_
  split
  case h_2 => exact int64.map _
  case h_3 => exact constant.map _
  case h_7 => exact ((alternative 11).map _).map _
  case h_8 => exact slot.map _
  case h_9 => exact text.andThen fun owner => text.andThen fun name => kind.map _
  case h_10 => exact text.andThen fun name => kind.map _
  case h_11 | h_13 | h_16 => exact text.map _
  case h_12 => exact call.map _
  case h_14 => exact slot.andThen fun slot => text.map _
  -- The others carry nothing.
  all_goals exact nothing _

theorem body : Steady readBody :=
  text.andThen fun _ => text.andThen fun _ => kind.list.andThen fun _ => instruction.list.map _

end Steady

end Bytes

/-! ### Files -/

namespace Container

open Bytes (Steady number)

variable {bodies : List Body} {bytes payload missing : List UInt8}

theorem payload_steady : Steady readPayload :=
  (Steady.number 4).andThen fun _ => Steady.body.list.map _

/-- What follows a header with the right version is read as a payload. -/
theorem decode_header_append (payload : List UInt8) :
    decode (magic ++ number 4 version ++ payload) = decodePayload payload := rfl

theorem decodePayload_of_cut (hfits : Fits bodies)
    (hcut : payloadBytes (version, bodies) = payload ++ missing) (hmissing : missing ≠ []) :
    decodePayload payload = .error (.payload .truncated) := by
  have hversion : version < 256 ^ 4 := by decide
  have hread : readPayload payload = .error .truncated :=
    payload_codes.read_of_cut payload_steady ⟨hversion, hfits⟩ hcut hmissing
  rw [decodePayload, hread]

/-- **A file that was cut off is refused, and the reason is that it ends too early.** It is too
short for a file if its header is not complete. Otherwise its payload ends too early. It does not
matter whether the bodies pass the checks. -/
theorem decode_of_cut (hfits : Fits bodies) (hpart : bytes <+: encode bodies)
    (hcut : bytes ≠ encode bodies) :
    decode bytes = .error
      (if bytes.length < headerLength then .tooShort bytes.length else .payload .truncated) := by
  split
  next hshort => rw [decode, if_pos hshort]
  next hlong =>
    obtain ⟨missing, hmissing⟩ := hpart
    rw [encode_eq] at hmissing hcut
    have hheader : magic ++ number 4 version <+: bytes := by
      refine List.prefix_of_prefix_length_le ⟨_, rfl⟩ ⟨missing, hmissing⟩ ?_
      exact Nat.not_lt.1 hlong
    obtain ⟨payload, rfl⟩ := hheader
    rw [List.append_assoc, List.append_cancel_left_eq] at hmissing
    rw [decode_header_append]
    refine decodePayload_of_cut hfits hmissing.symm ?_
    rintro rfl
    rw [List.append_nil] at hmissing
    exact hcut (by rw [hmissing])

/-- A body that does not pass the checks, and a string with a letter of two bytes in it. -/
def unnamed : Body where
  declaringClass := "Page"
  superclass := ""
  parameters := [.reference "java.lang.String"]
  instructions := [.pushConst (.string "né"), .pop, .returnVoid]

/-- The file of the body up to the middle of the letter. -/
theorem decode_of_cut_unnamed :
    Fits [unnamed] ∧ (encode [unnamed]).take 102 <+: encode [unnamed] ∧
      (encode [unnamed]).take 102 ≠ encode [unnamed] ∧
      decode ((encode [unnamed]).take 102) = .error (.payload .truncated) := by
  have hfits : Fits [unnamed] := by
    refine ⟨by decide, List.forall_mem_singleton.2 ?_⟩
    refine ⟨by decide, by decide, ⟨by decide, ?_⟩, ⟨by decide, ?_⟩⟩
    · exact List.forall_mem_singleton.2 (by decide : Bytes.TextFits "java.lang.String")
    · have hstring : Bytes.TextFits "né" := by decide
      exact List.forall_mem_cons.2 ⟨hstring, by simp [Instruction.Fits]⟩
  have hpart := List.take_prefix 102 (encode [unnamed])
  have hlength : (encode [unnamed]).length = 111 := by decide
  have hcut : (encode [unnamed]).take 102 ≠ encode [unnamed] := by
    intro h
    have h := congrArg List.length h
    rw [List.length_take, hlength] at h
    contradiction
  refine ⟨hfits, hpart, hcut, ?_⟩
  rw [decode_of_cut hfits hpart hcut, List.length_take, hlength]
  rfl

end Container

end FieldFlow
