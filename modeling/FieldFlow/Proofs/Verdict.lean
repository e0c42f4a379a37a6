import FieldFlow.Proofs.Agree
import FieldFlow.Proofs.Value.Reach
import FieldFlow.Verdict
import Mathlib.Data.List.Nodup

/-!
# What verdicts mean

The verdicts on values in terms of the parameters that can be reached from them, and the mapping in
terms of the verdicts.

## Main Statements

* `Verdict.of_eq_bound_iff`, `Verdict.of_eq_independent_iff`: the verdicts on a value
* `Mapping.independent_of_absent`, `Mapping.exists_bound_of_get?`: which assigned fields the mapping
  has, and which it leaves out
* `Mapping.ofAssignments_eq_error`, `Mapping.exists_ofAssignments_eq_ok`: whether there is a mapping
-/

namespace FieldFlow

namespace Verdict

variable {cells : Cells} {value : Value} {binding : Binding}

theorem parameter?_eq_some_iff :
    parameter? value = some binding ↔ value = .parameter binding.parameter binding.kind := by
  obtain ⟨index, kind⟩ := binding
  cases value <;> simp [parameter?]

/-- A value is a reference, or stands for itself. -/
theorem reaches_resolve (value : Value) : cells.Reaches value (cells.resolve value) := by
  cases value with
  | ref cell => exact .head (.content cell) (.refl _)
  | _ => exact .refl _

/-- A reference leads nowhere but to the content of its cell. -/
theorem reaches_parameter_resolve {index : Nat} {kind : Kind} :
    cells.Reaches (cells.resolve value) (.parameter index kind) ↔
      cells.Reaches value (.parameter index kind) := by
  constructor
  · exact (reaches_resolve value).trans
  · intro h
    cases value with
    | ref cell =>
      -- A reference is no parameter, so there is a first step, and it is to the content.
      rcases Relation.ReflTransGen.cases_head h with heq | ⟨child, hstep, h⟩
      · cases heq
      · cases hstep with
        | operand hmem => cases hmem
        | content => exact h
    | _ => exact h

theorem reachesParameter_resolve :
    cells.ReachesParameter (cells.resolve value) ↔ cells.ReachesParameter value :=
  exists_congr fun _ => exists_congr fun _ => reaches_parameter_resolve

/-- The parameter that a value passes on can be reached from it. -/
theorem reaches_of_binding? (h : binding? cells value = some binding) :
    cells.Reaches value (.parameter binding.parameter binding.kind) := by
  unfold binding? at h
  split at h
  next index kind =>
    cases h
    exact .refl _
  next owner name arg =>
    split at h
    next =>
      rw [← parameter?_eq_some_iff.1 h]
      exact .head (.operand List.mem_cons_self) (reaches_resolve arg)
    next => cases h
  next receiver name =>
    obtain ⟨h, -⟩ := Option.filter_eq_some_iff.1 h
    rw [← parameter?_eq_some_iff.1 h]
    exact .head (.operand List.mem_cons_self) (reaches_resolve receiver)
  next => cases h

theorem of_eq_bound_iff :
    of cells value = .bound binding ↔ binding? cells value = some binding := by
  rw [of]
  cases binding? cells value with
  | some found => simp
  | none =>
    dsimp only
    split <;> simp

/-- The verdict is independence for the values from which no parameter can be reached. -/
theorem of_eq_independent_iff : of cells value = .independent ↔ ¬ cells.ReachesParameter value := by
  rw [of, ← Cells.dependsOnParameter_iff]
  cases hbinding : binding? cells value with
  | some binding =>
    have hreach : cells.dependsOnParameter value = true :=
      cells.dependsOnParameter_iff value |>.2 ⟨_, _, reaches_of_binding? hbinding⟩
    simp [hreach]
  | none => split <;> simp_all

end Verdict

namespace Mapping

variable {cells : Cells} {assignments : List (String × Value)} {mapping : Mapping}
variable {field : String} {value : Value} {binding : Binding}

/-- The first assignment of a mapping is bound or independent, and the others have a mapping. -/
theorem ofAssignments_cons_eq_ok
    (h : ofAssignments cells ((field, value) :: assignments) = .ok mapping) :
    ∃ later, ofAssignments cells assignments = .ok later ∧
      ((∃ binding, Verdict.of cells (cells.resolve value) = .bound binding ∧
          mapping.fields = later.fields.insert field binding) ∨
        Verdict.of cells (cells.resolve value) = .independent ∧
          mapping.fields = later.fields) := by
  rw [ofAssignments] at h
  split at h
  next => cases h
  next binding hverdict =>
    obtain ⟨later, hlater, h⟩ := bind_eq_ok.1 h
    cases h
    exact ⟨later, hlater, .inl ⟨binding, hverdict, rfl⟩⟩
  next hverdict =>
    obtain ⟨later, hlater, h⟩ := bind_eq_ok.1 h
    cases h
    exact ⟨later, hlater, .inr ⟨hverdict, rfl⟩⟩

/-- **An assigned field that the mapping leaves out has an independent value.** -/
theorem independent_of_absent (h : ofAssignments cells assignments = .ok mapping)
    (hassigned : (field, value) ∈ assignments) (habsent : mapping.fields.get? field = none) :
    Verdict.of cells (cells.resolve value) = .independent := by
  induction assignments generalizing mapping with
  | nil => cases hassigned
  | cons head assignments ih =>
    obtain ⟨later, hlater, hhead⟩ := ofAssignments_cons_eq_ok h
    rcases hhead with ⟨binding, -, hfields⟩ | ⟨hindependent, hfields⟩
    · rw [hfields, Table.get?_insert] at habsent
      split at habsent
      next => cases habsent
      next hne =>
        rcases List.mem_cons.1 hassigned with rfl | hassigned
        · exact absurd rfl hne
        · exact ih hlater hassigned habsent
    · rw [hfields] at habsent
      rcases List.mem_cons.1 hassigned with rfl | hassigned
      · exact hindependent
      · exact ih hlater hassigned habsent

/-- A field of the mapping was assigned a value with the binding as its verdict. -/
theorem exists_bound_of_get? (h : ofAssignments cells assignments = .ok mapping)
    (hfield : mapping.fields.get? field = some binding) :
    ∃ value, (field, value) ∈ assignments ∧
      Verdict.of cells (cells.resolve value) = .bound binding := by
  induction assignments generalizing mapping with
  | nil =>
    cases h
    cases hfield
  | cons head assignments ih =>
    obtain ⟨later, hlater, hhead⟩ := ofAssignments_cons_eq_ok h
    rcases hhead with ⟨found, hverdict, hfields⟩ | ⟨-, hfields⟩
    · rw [hfields, Table.get?_insert] at hfield
      split at hfield
      next heq =>
        cases hfield
        exact ⟨head.2, heq ▸ List.mem_cons_self, hverdict⟩
      next =>
        obtain ⟨value, hassigned, hbound⟩ := ih hlater hfield
        exact ⟨value, .tail _ hassigned, hbound⟩
    · rw [hfields] at hfield
      obtain ⟨value, hassigned, hbound⟩ := ih hlater hfield
      exact ⟨value, .tail _ hassigned, hbound⟩

/-- **The first field with a derived value is reported**, with the text of the value. -/
theorem ofAssignments_eq_error {before after : List (String × Value)}
    (hbefore : ∀ assigned ∈ before, Verdict.of cells (cells.resolve assigned.2) ≠ .derived)
    (hderived : Verdict.of cells (cells.resolve value) = .derived) :
    ofAssignments cells (before ++ (field, value) :: after) =
      .error (.derivedValue field (cells.render (cells.resolve value))) := by
  induction before with
  | nil => rw [List.nil_append, ofAssignments, hderived]
  | cons head before ih =>
    have hhead := hbefore head List.mem_cons_self
    have hlater := ih fun assigned hmem => hbefore assigned (.tail _ hmem)
    rw [List.cons_append, ofAssignments, hlater]
    cases hverdict : Verdict.of cells (cells.resolve head.2) with
    | derived => exact absurd hverdict hhead
    | _ => rfl

/-- **There is a mapping unless a field has a derived value.** -/
theorem exists_ofAssignments_eq_ok
    (h : ∀ assigned ∈ assignments, Verdict.of cells (cells.resolve assigned.2) ≠ .derived) :
    ∃ mapping, ofAssignments cells assignments = .ok mapping := by
  induction assignments with
  | nil => exact ⟨_, rfl⟩
  | cons head assignments ih =>
    obtain ⟨later, hlater⟩ := ih fun assigned hmem => h assigned (.tail _ hmem)
    rw [ofAssignments, hlater]
    cases hverdict : Verdict.of cells (cells.resolve head.2) with
    | derived => exact absurd hverdict (h head List.mem_cons_self)
    | _ => exact ⟨_, rfl⟩

/-- **The mapping has exactly the fields that were assigned a bound value**, if no field was
assigned twice. -/
theorem get?_eq_some_iff (h : ofAssignments cells assignments = .ok mapping)
    (hfields : (assignments.map (·.1)).Nodup) :
    mapping.fields.get? field = some binding ↔
      ∃ value, (field, value) ∈ assignments ∧
        Verdict.of cells (cells.resolve value) = .bound binding := by
  refine ⟨exists_bound_of_get? h, ?_⟩
  rintro ⟨value, hassigned, hbound⟩
  cases hfound : mapping.fields.get? field with
  | none =>
    rw [independent_of_absent h hassigned hfound] at hbound
    cases hbound
  | some found =>
    obtain ⟨other, hother, hfound⟩ := exists_bound_of_get? h hfound
    have hsame := List.inj_on_of_nodup_map hfields hassigned hother rfl
    cases hsame
    rw [hbound] at hfound
    cases hfound
    rfl

end Mapping

end FieldFlow
