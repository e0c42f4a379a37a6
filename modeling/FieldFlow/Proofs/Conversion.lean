import FieldFlow.Command
import FieldFlow.Proofs.Body.Extent

/-!
# Conversion between the forms of a file

A conversion either fails and leaves all files as they were, or it writes its output, from which the
bodies of the input are read again.

## Main Definitions

* `FileMap`: files as a map from paths to bytes, where every write succeeds
* `FileMap.run`: what a command answers on such files, and the files after it

## Main Statements

* `Command.bodiesOf_bytesFor`: bodies are read as they were written, in either form
* `Command.convert_run`: what a conversion does to any files

## Design Notes

What was read from a file passes the checks of `Body.check`. It can also be written with all of its
lengths: what a container holds was written with them, and what a text holds is not longer than the
text. With this, writing and reading again is the same in all four combinations of the two forms.
-/

namespace FieldFlow

open Command

/-! ### Files as a map -/

/-- Files as a map from paths to bytes. Paths with the same components lead to the same file. -/
structure FileMap where
  contents : List Path.Component → Option (List UInt8)

namespace FileMap

/-- The bytes of a file. -/
def read (files : FileMap) (path : Path) : Except FileFault (List UInt8) :=
  match files.contents path.components with
  | none => .error .notFound
  | some bytes => .ok bytes

/-- The files after one of them has been created or its bytes replaced. -/
def write (files : FileMap) (path : Path) (bytes : List UInt8) : FileMap where
  contents location :=
    if location = path.components then some bytes else files.contents location

/-- A map of files as the state of a program. -/
instance : FileStore (StateM FileMap) where
  read path := return (← get).read path
  write path bytes := do
    modify (·.write path bytes)
    return .ok ()
  isFile path := return ((← get).contents path.components).isSome

/-- What a command answers on the files, and the files after it. -/
def run {α : Type} (files : FileMap) (command : StateM FileMap α) : α × FileMap :=
  (StateT.run command files).run

/-- The bodies of a file. -/
def bodies (files : FileMap) (path : Path) : Except CommandError (List Body) :=
  match files.read path with
  | .error fault => .error (.read path (.file fault))
  | .ok bytes => bodiesOf path bytes

variable {files : FileMap} {path other : Path} {bytes : List UInt8} {found : List Body}

theorem read_write (h : path.isSame other = true) :
    (files.write other bytes).read path = .ok bytes := by
  have hsame : path.components = other.components := of_decide_eq_true h
  have hcontents : (files.write other bytes).contents path.components = some bytes := if_pos hsame
  rw [read, hcontents]

theorem read_write_of_not_isSame (h : path.isSame other = false) :
    (files.write other bytes).read path = files.read path := by
  have hother : path.components ≠ other.components := of_decide_eq_false h
  have hcontents : (files.write other bytes).contents path.components =
      files.contents path.components := if_neg hother
  rw [read, hcontents, read]

theorem bodies_eq_ok_iff :
    files.bodies path = .ok found ↔
      ∃ bytes, files.read path = .ok bytes ∧ bodiesOf path bytes = .ok found := by
  rw [bodies]
  cases files.read path with
  | error fault =>
    constructor
    · nofun
    · rintro ⟨_, h, -⟩
      cases h
  | ok bytes =>
    constructor
    · intro h
      exact ⟨bytes, rfl, h⟩
    · rintro ⟨_, h, hfound⟩
      cases h
      exact hfound

/-! ### Commands on a map of files -/

theorem run_readBodies (files : FileMap) (path : Path) :
    files.run (readBodies path) = (files.bodies path, files) := by
  simp only [run, readBodies, FileStore.read, bind_assoc, StateT.run_bind, StateT.run_get,
    pure_bind]
  rw [bodies]
  cases files.read path with
  | error fault => rfl
  | ok bytes => rfl

theorem run_writeBodies (files : FileMap) (path : Path) (bodies : List Body) :
    files.run (writeBodies path bodies) = (.ok (), files.write path (bytesFor path bodies)) :=
  rfl

/-- A conversion answers with the first thing that goes wrong, and writes if nothing does. -/
theorem run_convert (files : FileMap) (input output : Path) :
    files.run (convert input output) =
      if input.isSame output then (.error (.ontoItself input), files)
      else
        match files.bodies input with
        | .error error => (.error error, files)
        | .ok bodies => (.ok (), files.write output (bytesFor output bodies)) := by
  rw [convert]
  split
  next => rfl
  next =>
    have hread := run_readBodies files input
    simp only [run] at hread ⊢
    rw [StateT.run_bind, Id.run_bind, hread]
    cases files.bodies input with
    | error error => rfl
    | ok bodies => exact run_writeBodies files output bodies

end FileMap

namespace Command

variable {path : Path} {bytes : List UInt8} {bodies : List Body} {text : String}

theorem textOf?_bytesOf (text : String) : textOf? (bytesOf text) = some text :=
  Bytes.fromUTF8?_eq_some_iff.2 rfl

/-- A text is as long as its bytes are many. -/
theorem utf8ByteSize_of_textOf? (h : textOf? bytes = some text) :
    text.utf8ByteSize = bytes.length := by
  rw [Bytes.fromUTF8?_eq_some_iff.1 h]
  rfl

/-- The bodies of a file are those of its text or of its container. -/
theorem bodiesOf_eq_ok_iff :
    bodiesOf path bytes = .ok bodies ↔
      BodyFormat.of path = .json ∧
          (∃ text, textOf? bytes = some text ∧ Body.ofText text = .ok bodies) ∨
        BodyFormat.of path = .binary ∧ Container.decode bytes = .ok bodies := by
  rw [bodiesOf]
  cases BodyFormat.of path with
  | json =>
    cases textOf? bytes with
    | none => simp
    | some text => cases htext : Body.ofText text <;> simp [htext]
  | binary => cases Container.decode bytes <;> simp

/-- Bodies that were read from a file have passed their checks. -/
theorem check_of_bodiesOf (h : bodiesOf path bytes = .ok bodies) :
    ∀ body ∈ bodies, body.check = .ok () := by
  rcases bodiesOf_eq_ok_iff.1 h with ⟨-, text, -, htext⟩ | ⟨-, hdecode⟩
  · exact (Body.ofText_eq_ok_iff.1 htext).1
  · exact (Container.decode_eq_ok_iff.1 hdecode).1

/-- Bodies that were read from a file can be written in a container, since the file is a text that
is long enough for them, or a container. -/
theorem fits_of_bodiesOf (hsize : bytes.length < 256 ^ 8) (h : bodiesOf path bytes = .ok bodies) :
    Container.Fits bodies := by
  rcases bodiesOf_eq_ok_iff.1 h with ⟨-, text, hbytes, htext⟩ | ⟨-, hdecode⟩
  · rw [← utf8ByteSize_of_textOf? hbytes] at hsize
    exact Body.fits_of_ofText hsize htext
  · exact (Container.decode_eq_ok_iff.1 hdecode).2.1

/-- **Bodies are read as they were written,** in a container if all of their lengths can be written,
and in JSON if they have no floating-point literals. -/
theorem bodiesOf_bytesFor (hcheck : ∀ body ∈ bodies, body.check = .ok ())
    (hfits : Container.Fits bodies)
    (hform : BodyFormat.of path = .binary ∨
      ∀ body ∈ bodies, ∀ constant ∈ body.constants, constant.isFloat = false) :
    bodiesOf path (bytesFor path bodies) = .ok bodies := by
  rw [bodiesOf_eq_ok_iff, bytesFor]
  cases hof : BodyFormat.of path with
  | json =>
    have hfloat := hform.resolve_left (by rw [hof]; nofun)
    have htext : Body.ofText (Body.toText bodies) = .ok bodies :=
      Body.ofText_eq_ok_iff.2 ⟨hcheck, _, _, (Body.readable_list bodies).readFront_pretty,
        Body.listOfJson?_echo hfloat, rfl⟩
    exact .inl ⟨rfl, _, textOf?_bytesOf _, htext⟩
  | binary =>
    exact .inr ⟨rfl, Container.decode_eq_ok_iff.2 ⟨hcheck, hfits, List.prefix_rfl⟩⟩

variable (files : FileMap) (input output : Path)

/-- **Conversion preserves bodies and fails without damage.** A conversion of a file onto itself, or
of a file whose bodies cannot be read, fails and changes no file. Every other conversion succeeds
and changes no file but its output. The output then holds the bodies of the input, if it is a
container or they have no floating-point literals. Lengths of files are numbers of 64 bits. -/
theorem convert_run
    (hsize : ∀ bytes, files.read input = .ok bytes → bytes.length < 256 ^ 8) :
    ((input.isSame output = true ∨ ∃ error, (files.run (readBodies input)).1 = .error error) →
      ∃ error, files.run (convert input output) = (.error error, files)) ∧
    (input.isSame output = false → ∀ bodies, (files.run (readBodies input)).1 = .ok bodies →
      ∃ after, files.run (convert input output) = (.ok (), after) ∧
        (∀ path, path.isSame output = false → after.read path = files.read path) ∧
        (BodyFormat.of output = .binary ∨
          (∀ body ∈ bodies, ∀ constant ∈ body.constants, constant.isFloat = false) →
            after.run (readBodies output) = (.ok bodies, after))) := by
  rw [files.run_convert, files.run_readBodies]
  dsimp only
  constructor
  · intro hfail
    split
    next => exact ⟨_, rfl⟩
    next hsame =>
      obtain ⟨error, herror⟩ := hfail.resolve_left hsame
      exact ⟨error, by rw [herror]⟩
  · intro hsame bodies hbodies
    rw [hsame, if_neg Bool.false_ne_true, hbodies]
    refine ⟨_, rfl, fun path => FileMap.read_write_of_not_isSame, fun hform => ?_⟩
    obtain ⟨bytes, hread, hbodies⟩ := FileMap.bodies_eq_ok_iff.1 hbodies
    have hfits := fits_of_bodiesOf (hsize bytes hread) hbodies
    have houtput := bodiesOf_bytesFor (check_of_bodiesOf hbodies) hfits hform
    rw [FileMap.run_readBodies]
    rw [FileMap.bodies_eq_ok_iff.2 ⟨_, FileMap.read_write (decide_eq_true rfl), houtput⟩]

/-- One body in place of a list, with the values of its fields in order, becomes a container. -/
theorem convert_run_positional :
    let text := "[\"Point\", \"java.lang.Object\", [], [\"return_void\"]] "
    let body : Body := ⟨"Point", "java.lang.Object", [], [.returnVoid]⟩
    let input : Path := ⟨"point.json"⟩
    let output : Path := ⟨"point.ctor"⟩
    let files := FileMap.write ⟨fun _ => none⟩ input (bytesOf text)
    ∃ after, files.run (convert input output) = (.ok (), after) ∧
      after.run (readBodies output) = (.ok [body], after) := by
  intro text body input output files
  have hread : files.read input = .ok (bytesOf text) := FileMap.read_write (decide_eq_true rfl)
  have hsize : ∀ bytes, files.read input = .ok bytes → bytes.length < 256 ^ 8 := by
    intro bytes h
    rw [hread] at h
    cases h
    decide +kernel
  have hbodies : (files.run (readBodies input)).1 = .ok [body] := by
    decide +kernel
  obtain ⟨after, hrun, -, hafter⟩ :=
    (convert_run files input output hsize).2 (by decide +kernel) [body] hbodies
  exact ⟨after, hrun, hafter (.inl (by decide +kernel))⟩

end Command

end FieldFlow
