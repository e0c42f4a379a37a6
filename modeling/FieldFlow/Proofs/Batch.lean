import FieldFlow.Batch
import FieldFlow.Proofs.Table

/-!
# Completeness of batches

What a batch says about each class of its list, and that it does so once.

## Main Definitions

* `Batch.classes`: the declaring classes of a list of bodies
* `Batch.outcome`: what a batch records of one body
* `Batch.Records`: a batch holds the outcomes of the bodies looked at so far
* `Batch.Complete`: every class of a list has its result or its failure

## Main Statements

* `Batch.Records.add`: adding a body records its outcome
* `Batch.records_ofBodies`: in the end the outcomes of all bodies are recorded
* `Batch.ofBodies_complete`: a batch is complete, and the order of the bodies matters only to the
  order of the failures

## Design Notes

Bodies of one class have one outcome: either there is only one such body, or all of them fail alike.
So what is recorded can be said by membership alone. The order of the failures is the order in which
the classes appear first, and it is strict, which is why no class fails twice.
-/

namespace FieldFlow

/-! ### Outcomes -/

namespace Batch

variable {bodies done rest : List Body} {options : Options} {batch : Batch} {body : Body}
variable {name : String} {analysis : Analysis} {error : AnalysisError} {failure : Failure}

/-- The declaring classes of the bodies, with repetitions. -/
def classes (bodies : List Body) : List String :=
  bodies.map (·.declaringClass)

theorem mem_classes_iff : name ∈ classes bodies ↔ ∃ body ∈ bodies, body.declaringClass = name :=
  List.mem_map

theorem classes_append (bodies more : List Body) :
    classes (bodies ++ more) = classes bodies ++ classes more :=
  List.map_append

theorem classes_cons (body : Body) (bodies : List Body) :
    classes (body :: bodies) = body.declaringClass :: classes bodies :=
  rfl

theorem isRepeated_iff : isRepeated bodies name = true ↔ 1 < (classes bodies).count name := by
  unfold isRepeated classes List.count
  rw [List.countP_map, decide_eq_true_iff]
  rfl

theorem hasFailure_iff :
    batch.hasFailure name = true ↔ ∃ failure ∈ batch.failures, failure.declaringClass = name := by
  unfold hasFailure
  simp

/-- What is recorded of a body, given all bodies of the batch. -/
def outcome (bodies : List Body) (options : Options) (body : Body) :
    Except AnalysisError Analysis :=
  if isRepeated bodies body.declaringClass then .error (.unsupported .severalConstructors)
  else body.analyze options

theorem outcome_of_isRepeated (h : isRepeated bodies body.declaringClass = true) :
    outcome bodies options body = .error (.unsupported .severalConstructors) :=
  if_pos h

theorem outcome_of_not_isRepeated (h : ¬ isRepeated bodies body.declaringClass = true) :
    outcome bodies options body = body.analyze options :=
  if_neg h

/-- The outcome does not depend on the order of the bodies. -/
theorem outcome_perm {other : List Body} (h : bodies.Perm other) :
    outcome bodies options = outcome other options := by
  funext body
  unfold outcome isRepeated
  rw [h.countP_eq]

/-- A class that is declared by a body and by another one is repeated. -/
theorem isRepeated_of_mem (hmem : body.declaringClass ∈ classes (done ++ rest)) :
    isRepeated (done ++ body :: rest) body.declaringClass = true := by
  have hcount := List.count_pos_iff.2 hmem
  rw [classes_append, List.count_append] at hcount
  rw [isRepeated_iff, classes_append, classes_cons, List.count_append, List.count_cons_self]
  omega

/-- **All bodies of one class have one outcome.** -/
theorem outcome_eq_of_mem {other : Body} (hbody : body ∈ bodies) (hother : other ∈ bodies)
    (hclass : other.declaringClass = body.declaringClass) :
    outcome bodies options other = outcome bodies options body := by
  by_cases hrepeated : isRepeated bodies body.declaringClass = true
  · rw [outcome_of_isRepeated hrepeated, outcome_of_isRepeated (hclass.symm ▸ hrepeated)]
  · -- Any other body of this class would make it a repeated one.
    obtain ⟨before, after, rfl⟩ := List.append_of_mem hbody
    have hsame : other = body := by
      by_contra hne
      have hrest : other ∈ before ++ after := by simpa [hne] using hother
      exact hrepeated (isRepeated_of_mem (mem_classes_iff.2 ⟨other, hrest, hclass⟩))
    rw [hsame]

/-! ### Recording outcomes one by one -/

theorem exists_mem_concat {p : Body → Prop} :
    (∃ other ∈ done ++ [body], p other) ↔ (∃ other ∈ done, p other) ∨ p body := by
  simp [or_and_right, exists_or]

/-- The batch holds the outcomes of the bodies looked at so far, the failures in the order in which
their classes appear first. -/
structure Records (bodies : List Body) (options : Options) (done : List Body) (batch : Batch) :
    Prop where
  result_iff {name : String} {analysis : Analysis} :
    batch.results.get? name = some analysis ↔
      ∃ body ∈ done, body.declaringClass = name ∧ outcome bodies options body = .ok analysis
  failure_iff {failure : Failure} :
    failure ∈ batch.failures ↔
      ∃ body ∈ done, body.declaringClass = failure.declaringClass ∧
        outcome bodies options body = .error failure.error
  ordered : batch.failures.Pairwise fun failure later =>
    (classes done).idxOf failure.declaringClass < (classes done).idxOf later.declaringClass

namespace Records

theorem empty : Records bodies options [] Batch.empty where
  result_iff := by simp [Batch.empty, Table.get?_empty]
  failure_iff := by simp [Batch.empty]
  ordered := .nil

variable (h : Records bodies options done batch)
include h

theorem mem_classes (hmem : failure ∈ batch.failures) : failure.declaringClass ∈ classes done := by
  obtain ⟨body, hbody, hclass, -⟩ := h.failure_iff.1 hmem
  exact mem_classes_iff.2 ⟨body, hbody, hclass⟩

/-- More bodies leave the order of the failures as it is. -/
theorem ordered_append (more : List Body) : batch.failures.Pairwise fun failure later =>
    (classes (done ++ more)).idxOf failure.declaringClass <
      (classes (done ++ more)).idxOf later.declaringClass := by
  refine List.Pairwise.imp_of_mem (fun {failure later} hfailure hlater hlt => ?_) h.ordered
  rw [classes_append, List.idxOf_append_of_mem (h.mem_classes hfailure),
    List.idxOf_append_of_mem (h.mem_classes hlater)]
  exact hlt

/-- A body whose outcome is recorded already changes nothing. -/
theorem known (hknown : ∃ earlier ∈ done, earlier.declaringClass = body.declaringClass ∧
    outcome bodies options earlier = outcome bodies options body) :
    Records bodies options (done ++ [body]) batch := by
  obtain ⟨earlier, hearlier, hclass, houtcome⟩ := hknown
  have hcovered : ∀ {name result}, body.declaringClass = name ∧
      outcome bodies options body = result → ∃ other ∈ done, other.declaringClass = name ∧
        outcome bodies options other = result := by
    rintro _ _ ⟨rfl, rfl⟩
    exact ⟨earlier, hearlier, hclass, houtcome⟩
  refine ⟨?_, ?_, h.ordered_append _⟩
  · intro name analysis
    rw [h.result_iff, exists_mem_concat, or_iff_left_of_imp hcovered]
  · intro failure
    rw [h.failure_iff, exists_mem_concat, or_iff_left_of_imp hcovered]

/-- A body of a new class that is accepted has its result recorded. -/
theorem accepted (hnew : body.declaringClass ∉ classes done)
    (haccepted : outcome bodies options body = .ok analysis) :
    Records bodies options (done ++ [body])
      { batch with results := batch.results.insert body.declaringClass analysis } := by
  refine ⟨?_, ?_, h.ordered_append _⟩
  · intro name result
    rw [Table.get?_insert, exists_mem_concat]
    split_ifs with hname
    · rw [or_iff_right, haccepted, Option.some_inj, Except.ok.injEq, and_iff_right hname]
      rintro ⟨other, hother, hclass, -⟩
      exact hnew (mem_classes_iff.2 ⟨other, hother, hclass.trans hname.symm⟩)
    · rw [h.result_iff, or_iff_left fun hbody => hname hbody.1]
  · intro failure
    rw [exists_mem_concat, or_iff_left]
    · exact h.failure_iff
    · rintro ⟨-, hresult⟩
      cases haccepted.symm.trans hresult

/-- A body of a new class that is rejected has its failure recorded, after those there are. -/
theorem rejected (hnew : body.declaringClass ∉ classes done)
    (hrejected : outcome bodies options body = .error error) :
    Records bodies options (done ++ [body]) (batch.addFailure ⟨body.declaringClass, error⟩) := by
  refine ⟨?_, ?_, ?_⟩
  · intro name result
    rw [exists_mem_concat, or_iff_left]
    · exact h.result_iff
    · rintro ⟨-, hresult⟩
      cases hrejected.symm.trans hresult
  · intro failure
    rw [addFailure, List.mem_append, h.failure_iff, exists_mem_concat, hrejected]
    cases failure
    simp [eq_comm]
  · refine List.pairwise_append.2 ⟨h.ordered_append _, List.pairwise_singleton _ _, ?_⟩
    intro failure hfailure later hlater
    have hmem := h.mem_classes hfailure
    rw [List.mem_singleton.1 hlater, classes_append, List.idxOf_append_of_mem hmem,
      List.idxOf_append_of_notMem hnew]
    exact Nat.lt_add_right _ (List.idxOf_lt_length_iff.2 hmem)

/-- **Adding a body records its outcome.** -/
theorem add (hbodies : bodies = done ++ body :: rest) :
    Records bodies options (done ++ [body]) (Batch.add bodies options batch body) := by
  unfold Batch.add
  split_ifs with hrepeated hfailed
  · -- The class has failed already, and as a repeated class it could only fail in this way.
    obtain ⟨failure, hfailure, hclass⟩ := hasFailure_iff.1 hfailed
    obtain ⟨earlier, hearlier, hname, -⟩ := h.failure_iff.1 hfailure
    refine h.known ⟨earlier, hearlier, hname.trans hclass, ?_⟩
    rw [outcome_of_isRepeated hrepeated,
      outcome_of_isRepeated ((hname.trans hclass).symm ▸ hrepeated)]
  · refine h.rejected ?_ (outcome_of_isRepeated hrepeated)
    intro hmem
    obtain ⟨earlier, hearlier, hclass⟩ := mem_classes_iff.1 hmem
    have hfailure : ⟨body.declaringClass, .unsupported .severalConstructors⟩ ∈ batch.failures :=
      h.failure_iff.2
        ⟨earlier, hearlier, hclass, outcome_of_isRepeated (hclass.symm ▸ hrepeated)⟩
    exact hfailed (hasFailure_iff.2 ⟨_, hfailure, rfl⟩)
  · have hnew : body.declaringClass ∉ classes done := by
      intro hmem
      rw [hbodies] at hrepeated
      refine hrepeated (isRepeated_of_mem ?_)
      rw [classes_append]
      exact List.mem_append_left _ hmem
    have houtcome : outcome bodies options body = body.analyze options :=
      outcome_of_not_isRepeated hrepeated
    split
    next analysis hanalysis => exact h.accepted hnew (houtcome.trans hanalysis)
    next error herror => exact h.rejected hnew (houtcome.trans herror)

theorem foldl_add (hbodies : bodies = done ++ rest) :
    Records bodies options bodies (rest.foldl (Batch.add bodies options) batch) := by
  induction rest generalizing done batch with
  | nil =>
    rw [List.append_nil] at hbodies
    exact hbodies ▸ h
  | cons body rest ih =>
    rw [List.foldl_cons]
    exact ih (h.add hbodies) (by rw [hbodies, List.append_assoc, List.singleton_append])

end Records

/-- **In the end the outcomes of all bodies are recorded.** -/
theorem records_ofBodies (bodies : List Body) (options : Options) :
    Records bodies options bodies (ofBodies bodies options) :=
  Records.empty.foldl_add rfl

/-! ### Complete batches -/

/-- Every class of the bodies has its result or its failure in the batch. -/
structure Complete (bodies : List Body) (options : Options) (batch : Batch) : Prop where
  /-- No class has both a result and a failure. -/
  disjoint : ∀ failure ∈ batch.failures, failure.declaringClass ∉ batch.results.names
  /-- The classes with a result or a failure are those of the bodies. -/
  covers : ∀ name, (name ∈ batch.results.names ∨ name ∈ batch.failures.map (·.declaringClass)) ↔
    name ∈ classes bodies
  /-- No class fails twice. -/
  nodup : (batch.failures.map (·.declaringClass)).Nodup
  /-- The only body of a class has the outcome of its analysis. -/
  single : ∀ body ∈ bodies, (classes bodies).count body.declaringClass = 1 →
    match body.analyze options with
    | .ok analysis => batch.results.get? body.declaringClass = some analysis
    | .error error => ⟨body.declaringClass, error⟩ ∈ batch.failures
  /-- A class with several bodies fails whatever they are. -/
  several : ∀ name, 1 < (classes bodies).count name →
    ⟨name, .unsupported .severalConstructors⟩ ∈ batch.failures
  /-- The failures stand in the order in which their classes appear first. -/
  ordered : (batch.failures.map (·.declaringClass)).Pairwise fun name later =>
    (classes bodies).idxOf name < (classes bodies).idxOf later

namespace Records

variable {other : Batch}

theorem nodup (h : Records bodies options done batch) :
    (batch.failures.map (·.declaringClass)).Nodup := by
  refine List.pairwise_map.2 (h.ordered.imp fun hlt heq => ?_)
  rw [heq] at hlt
  exact Nat.lt_irrefl _ hlt

/-- A batch in which the outcomes of all bodies are recorded is complete. -/
theorem complete (h : Records bodies options bodies batch) : Complete bodies options batch where
  disjoint := by
    intro failure hfailure hname
    obtain ⟨analysis, hresult⟩ := Table.mem_names_iff.1 hname
    obtain ⟨accepted, haccepted, hclass, hok⟩ := h.result_iff.1 hresult
    obtain ⟨rejected, hrejected, hclass', herror⟩ := h.failure_iff.1 hfailure
    have hsame : outcome bodies options accepted = outcome bodies options rejected :=
      outcome_eq_of_mem hrejected haccepted (hclass.trans hclass'.symm)
    cases (hok.symm.trans hsame).trans herror
  covers := by
    intro name
    rw [Table.mem_names_iff, List.mem_map, mem_classes_iff]
    constructor
    · rintro (⟨analysis, hresult⟩ | ⟨failure, hfailure, rfl⟩)
      · obtain ⟨body, hbody, hclass, -⟩ := h.result_iff.1 hresult
        exact ⟨body, hbody, hclass⟩
      · obtain ⟨body, hbody, hclass, -⟩ := h.failure_iff.1 hfailure
        exact ⟨body, hbody, hclass⟩
    · rintro ⟨body, hbody, rfl⟩
      cases houtcome : outcome bodies options body with
      | ok analysis => exact .inl ⟨analysis, h.result_iff.2 ⟨body, hbody, rfl, houtcome⟩⟩
      | error error =>
        exact .inr ⟨⟨body.declaringClass, error⟩,
          h.failure_iff.2 ⟨body, hbody, rfl, houtcome⟩, rfl⟩
  nodup := h.nodup
  single := by
    intro body hbody hcount
    have houtcome : outcome bodies options body = body.analyze options := by
      refine outcome_of_not_isRepeated ?_
      rw [isRepeated_iff, hcount]
      exact Nat.lt_irrefl 1
    split
    next analysis hanalysis =>
      exact h.result_iff.2 ⟨body, hbody, rfl, houtcome.trans hanalysis⟩
    next error herror => exact h.failure_iff.2 ⟨body, hbody, rfl, houtcome.trans herror⟩
  several := by
    intro name hcount
    obtain ⟨body, hbody, rfl⟩ := mem_classes_iff.1 (List.count_pos_iff.1 (Nat.zero_lt_of_lt hcount))
    exact h.failure_iff.2 ⟨body, hbody, rfl, outcome_of_isRepeated (isRepeated_iff.2 hcount)⟩
  ordered := List.pairwise_map.2 h.ordered

/-- Batches that hold the outcomes of the same bodies have the same results. -/
theorem results_eq_of_perm {more : List Body} (h : Records bodies options bodies batch)
    (hother : Records more options more other) (hperm : bodies.Perm more) :
    other.results = batch.results := by
  refine Table.eq_of_get?_eq fun name => Option.ext fun analysis => ?_
  rw [hother.result_iff, h.result_iff, outcome_perm hperm]
  simp only [hperm.mem_iff]

/-- They have the same failures, in some order. -/
theorem failures_perm {more : List Body} (h : Records bodies options bodies batch)
    (hother : Records more options more other) (hperm : bodies.Perm more) :
    other.failures.Perm batch.failures := by
  refine (List.perm_ext_iff_of_nodup hother.nodup.of_map h.nodup.of_map).2 fun failure => ?_
  rw [hother.failure_iff, h.failure_iff, outcome_perm hperm]
  simp only [hperm.mem_iff]

end Records

/-- **A batch is complete.** Every class of the list has a result or a failure, and only one of
them: the outcome of its only body, or the failure of a class with several bodies. The failures
stand in the order in which their classes appear first. The order of the bodies changes nothing but
the order of the failures. -/
theorem ofBodies_complete (bodies : List Body) (options : Options) :
    Complete bodies options (ofBodies bodies options) ∧
      ∀ other, bodies.Perm other →
        (ofBodies other options).results = (ofBodies bodies options).results ∧
          (ofBodies other options).failures.Perm (ofBodies bodies options).failures := by
  have h := records_ofBodies bodies options
  refine ⟨h.complete, fun other hperm => ?_⟩
  have hother := records_ofBodies other options
  exact ⟨h.results_eq_of_perm hother hperm, h.failures_perm hother hperm⟩

/-- A class whose constructor does not return, one that is accepted, and one with two constructors
around it. -/
def drawing : List Body :=
  [⟨"demo.Blank", "java.lang.Object", [], []⟩,
    ⟨"demo.Line", "java.lang.Object", [], [.returnVoid]⟩,
    ⟨"demo.Point", "java.lang.Object", [.int],
      [.loadLocal 0, .loadLocal 1, .putField "x", .returnVoid]⟩,
    ⟨"demo.Line", "java.lang.Object", [.int], [.returnVoid]⟩]

theorem ofBodies_complete_drawing :
    Complete drawing {} (ofBodies drawing {}) ∧
      drawing.Perm drawing.reverse ∧
      (ofBodies drawing.reverse {}).results = (ofBodies drawing {}).results ∧
      (ofBodies drawing.reverse {}).failures.Perm (ofBodies drawing {}).failures := by
  have hperm : drawing.Perm drawing.reverse := (List.reverse_perm drawing).symm
  obtain ⟨hcomplete, hreordered⟩ := ofBodies_complete drawing {}
  exact ⟨hcomplete, hperm, hreordered _ hperm⟩

example : (ofBodies drawing {}).results.names = ["demo.Point"] ∧
    (ofBodies drawing {}).failures = [⟨"demo.Blank", .unsupported .noReturn⟩,
      ⟨"demo.Line", .unsupported .severalConstructors⟩] :=
  ⟨by cbv, by cbv⟩

end Batch

end FieldFlow
