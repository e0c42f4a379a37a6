import FieldFlow.Container.Basic
import FieldFlow.Proofs.Agree
import FieldFlow.Proofs.Container.Bodies

/-!
# The container is canonical

A file holds a list of bodies if and only if it begins with the bytes that are written for this list,
so no two lists share a file and no file needs anything that tells where it ends.

## Main Definitions

* `Container.Fits`: the lists of bodies whose lengths can be written

## Main Statements

* `Container.decode_eq_ok_iff`: the files that are accepted, and what they hold
* `Container.encode_canonical`: the same, with what follows for files that are written
-/

namespace FieldFlow

/-- A list of bodies passes the checks if each body does. -/
theorem Body.checkAll_eq_ok_iff (bodies : List Body) :
    checkAll bodies = .ok () ↔ ∀ body ∈ bodies, body.check = .ok () := by
  induction bodies with
  | nil => simp [checkAll]
  | cons body bodies ih =>
    rw [checkAll, List.forall_mem_cons]
    cases body.check with
    | error fault => simp
    | ok result => simp [ih]

namespace Container

open Bytes (Codes ListFits number value)

/-- All lengths in the bodies, and the number of the bodies, can be written. -/
def Fits (bodies : List Body) : Prop :=
  ListFits Body.Fits bodies

variable {bodies first second : List Body} {bytes payload : List UInt8}

/-- The bytes of a payload. -/
def payloadBytes (contents : Nat × List Body) : List UInt8 :=
  number 4 contents.1 ++ Bytes.list Body.toBytes contents.2

theorem payload_codes :
    Codes (fun contents => contents.1 < 256 ^ 4 ∧ Fits contents.2) payloadBytes readPayload where
  iff {input contents rest} := by
    obtain ⟨version, bodies⟩ := contents
    simp only [readPayload, Bytes.andThen_eq_ok_iff, Bytes.map_eq_ok_iff,
      (Bytes.number_codes 4).iff, Bytes.body_codes.list.iff]
    constructor
    · rintro ⟨_, _, ⟨hversion, rfl⟩, _, ⟨hfits, rfl⟩, heq⟩
      cases heq
      refine ⟨⟨hversion, hfits⟩, ?_⟩
      simp only [payloadBytes, List.append_assoc]
    · rintro ⟨⟨hversion, hfits⟩, rfl⟩
      simp only [payloadBytes, List.append_assoc]
      exact ⟨_, _, ⟨hversion, rfl⟩, _, ⟨hfits, rfl⟩, rfl⟩

theorem decodePayload_eq_ok_iff :
    decodePayload payload = .ok bodies ↔
      (∀ body ∈ bodies, body.check = .ok ()) ∧ Fits bodies ∧
        payloadBytes (version, bodies) <+: payload := by
  rw [decodePayload]
  constructor
  · intro h
    -- Each test that the reader makes is passed.
    split at h
    next => cases h
    next payloadVersion found rest hread =>
      obtain ⟨⟨-, hfits⟩, rfl⟩ := payload_codes.iff.1 hread
      split at h
      next => cases h
      next hversion =>
        split at h
        next => cases h
        next hcheck =>
          cases h
          rw [not_ne_iff.1 hversion]
          exact ⟨(Body.checkAll_eq_ok_iff _).1 hcheck, hfits, List.prefix_append _ _⟩
  · rintro ⟨hcheck, hfits, rest, rfl⟩
    have hversion : version < 256 ^ 4 := by decide
    rw [payload_codes.read_append ⟨hversion, hfits⟩]
    dsimp only
    rw [if_neg (not_not.2 rfl), (Body.checkAll_eq_ok_iff _).2 hcheck]

/-- A file is its header and a payload. -/
theorem encode_eq (bodies : List Body) :
    encode bodies = magic ++ number 4 version ++ payloadBytes (version, bodies) := by
  rw [encode, payloadBytes, List.append_assoc _ (number 4 version)]

/-- The files with the right header. -/
theorem decode_eq_ok_iff_payload :
    decode bytes = .ok bodies ↔
      ∃ payload, bytes = magic ++ number 4 version ++ payload ∧
        decodePayload payload = .ok bodies := by
  rw [decode]
  constructor
  · intro h
    split at h
    next => cases h
    next hlength =>
      split at h
      next => cases h
      next hmagic =>
        dsimp only at h
        split at h
        next => cases h
        next hversion =>
          refine ⟨bytes.drop headerLength, ?_, h⟩
          -- The bytes of the version are those of the number that they stand for.
          have hcount : ((bytes.drop 4).take 4).length = 4 := by
            rw [headerLength] at hlength
            rw [List.length_take, List.length_drop]
            omega
          have hnumber := Bytes.number_value ((bytes.drop 4).take 4)
          rw [hcount, not_ne_iff.1 hversion] at hnumber
          have hdrop : bytes.drop headerLength = (bytes.drop 4).drop 4 := by
            rw [List.drop_drop, headerLength]
          rw [hnumber, ← not_ne_iff.1 hmagic, hdrop, List.append_assoc, List.take_append_drop,
            List.take_append_drop]
  · rintro ⟨payload, rfl, h⟩
    exact h

/-- **What a file holds.** The bodies of a file pass the checks, can be written, and are written
as the beginning of the file. Conversely, every such file holds these bodies. -/
theorem decode_eq_ok_iff :
    decode bytes = .ok bodies ↔
      (∀ body ∈ bodies, body.check = .ok ()) ∧ Fits bodies ∧ encode bodies <+: bytes := by
  rw [decode_eq_ok_iff_payload, encode_eq]
  constructor
  · rintro ⟨payload, rfl, h⟩
    obtain ⟨hcheck, hfits, hpayload⟩ := decodePayload_eq_ok_iff.1 h
    exact ⟨hcheck, hfits, (List.prefix_append_right_inj _).2 hpayload⟩
  · rintro ⟨hcheck, hfits, rest, rfl⟩
    refine ⟨payloadBytes (version, bodies) ++ rest, List.append_assoc _ _ _, ?_⟩
    exact decodePayload_eq_ok_iff.2 ⟨hcheck, hfits, List.prefix_append _ _⟩

/-- No file of a list of bodies begins with the file of another list. -/
theorem eq_of_encode_isPrefix (hfirst : Fits first) (hsecond : Fits second)
    (h : encode first <+: encode second) : first = second := by
  rw [encode_eq, encode_eq, List.prefix_append_right_inj] at h
  obtain ⟨rest, h⟩ := h
  have hversion : version < 256 ^ 4 := by decide
  have heq : payloadBytes (version, first) ++ rest = payloadBytes (version, second) ++ [] := by
    rw [h, List.append_nil]
  have hsame := (payload_codes.unique ⟨hversion, hfirst⟩ ⟨hversion, hsecond⟩ heq).1
  exact congrArg Prod.snd hsame

/-- **The container is canonical and delimits itself.** A file holds exactly the checked bodies
whose bytes it begins with. So what is written for checked bodies is read again, and the files of two
lists of bodies never begin with one another, whether or not the bodies pass the checks. -/
theorem encode_canonical :
    (∀ bytes bodies, decode bytes = .ok bodies ↔
      (∀ body ∈ bodies, body.check = .ok ()) ∧ Fits bodies ∧
        ∃ rest, bytes = encode bodies ++ rest) ∧
    (∀ bodies, Fits bodies → (∀ body ∈ bodies, body.check = .ok ()) →
      decode (encode bodies) = .ok bodies) ∧
    (∀ first second, Fits first → Fits second → encode first <+: encode second →
      first = second) := by
  refine ⟨?_, ?_, ?_⟩
  · intro bytes bodies
    rw [decode_eq_ok_iff]
    refine and_congr_right fun _ => and_congr_right fun _ => ?_
    exact exists_congr fun rest => eq_comm
  · intro bodies hfits hcheck
    exact decode_eq_ok_iff.2 ⟨hcheck, hfits, List.prefix_rfl⟩
  · intro first second hfirst hsecond h
    exact eq_of_encode_isPrefix hfirst hsecond h

/-- The body of a constructor that does nothing. -/
def idle : Body where
  declaringClass := "Empty"
  superclass := "java.lang.Object"
  parameters := []
  instructions := [.returnVoid]

theorem encode_canonical_idle : Fits [idle] ∧ decode (encode [idle]) = .ok [idle] := by
  have hfits : Fits [idle] := by
    refine ⟨by decide, List.forall_mem_singleton.2 ?_⟩
    refine ⟨?_, ?_, ⟨by decide, nofun⟩, ⟨by decide, List.forall_mem_singleton.2 trivial⟩⟩
    · show _ < _
      decide
    · show _ < _
      decide
  have hcheck : ∀ body ∈ [idle], body.check = .ok () := List.forall_mem_singleton.2 rfl
  exact ⟨hfits, encode_canonical.2.1 [idle] hfits hcheck⟩

end Container

end FieldFlow
