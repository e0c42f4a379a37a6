import FieldFlow.Proofs.Value.Occurs
import FieldFlow.Proofs.Value.Root
import FieldFlow.Proofs.Verdict
import Mathlib.Data.List.Basic

/-!
# Renamed cells

Cells under other numbers, and what does not depend on the numbers.

## Main Definitions

* `Value.rename`: a value with other numbers for the cells that it mentions
* `Cells.Renames`: cells that hold the same contents under other numbers, among further cells

## Main Statements

* `Cells.Renames.denotesThis_eq`, `Cells.Renames.verdict_eq`, `Cells.Renames.render_eq`: a renamed
  value denotes the same object, has the same verdict and the same text
* `Mapping.ofAssignments_rename`: renamed assignments have the same mapping, or the same error

## Design Notes

The further cells may hold anything, since no renamed value leads to them. What is looked for in
cells is compared through the relations that describe it, because the searches visit the cells in
the order of their numbers.
-/

namespace FieldFlow

namespace Value

variable {ρ : CellId → CellId} {value operand : Value} {bound : Nat}

/-- The value with other numbers for its cells. -/
def rename (ρ : CellId → CellId) : Value → Value
  | this => this
  | parameter index kind => parameter index kind
  | constant literal => constant literal
  | int value => int value
  | ref cell => ref (ρ cell)
  | new className => new className
  | methodCall receiver name args => methodCall (receiver.rename ρ) name (args.map (rename ρ))
  | staticCall owner name args => staticCall owner name (args.map (rename ρ))
  | fieldRead receiver name => fieldRead (receiver.rename ρ) name
  | staticField owner name => staticField owner name
  | binaryOp operator left right => binaryOp operator (left.rename ρ) (right.rename ρ)

@[simp]
theorem rename_ref (cell : CellId) : (ref cell).rename ρ = ref (ρ cell) := by
  rw [rename]

@[simp]
theorem isRef_rename (value : Value) : (value.rename ρ).isRef = value.isRef := by
  cases value <;> simp [rename, isRef]

@[simp]
theorem isRoot_rename (value : Value) : (value.rename ρ).isRoot = value.isRoot := by
  cases value <;> simp [rename, isRoot]

@[simp]
theorem operands_rename (value : Value) :
    (value.rename ρ).operands = value.operands.map (rename ρ) := by
  cases value <;> simp [rename, operands]

theorem rename_eq_this_iff : value.rename ρ = this ↔ value = this := by
  cases value <;> simp [rename]

theorem rename_eq_parameter_iff {index : Nat} {kind : Kind} :
    value.rename ρ = parameter index kind ↔ value = parameter index kind := by
  cases value <;> simp [rename]

theorem rename_eq_ref_iff {cell : CellId} :
    value.rename ρ = ref cell ↔ ∃ former, value = ref former ∧ ρ former = cell := by
  cases value <;> simp [rename]

/-- A value keeps its cells if those that it mentions keep their numbers. -/
theorem rename_of_scoped (h : value.Scoped bound) (hkept : ∀ cell < bound, ρ cell = cell) :
    value.rename ρ = value := by
  induction value using inductionOnOperands with
  | node value ih =>
    have hoperand : ∀ operand ∈ value.operands, operand.rename ρ = operand :=
      fun operand mem => ih operand mem (h.operand mem)
    have hargs : ∀ args : List Value, (∀ arg ∈ args, arg ∈ value.operands) →
        args.map (rename ρ) = args := by
      intro args hmem
      rw [List.map_congr_left (g := id) fun arg harg => hoperand arg (hmem arg harg), List.map_id]
    cases value with
    | ref cell => rw [rename, hkept cell (scoped_ref.1 h)]
    | methodCall receiver name args =>
      rw [rename, hoperand receiver List.mem_cons_self, hargs args fun _ => .tail _]
    | staticCall owner name args => rw [rename, hargs args fun _ => id]
    | fieldRead receiver name => rw [rename, hoperand receiver List.mem_cons_self]
    | binaryOp operator left right =>
      rw [rename, hoperand left List.mem_cons_self, hoperand right (.tail _ List.mem_cons_self)]
    | _ => rw [rename]

end Value

namespace Cells

variable {ρ : CellId → CellId} {cells other : Cells} {value target root : Value} {passed : Nat}
variable {cell : CellId}

/-- The other cells hold the same contents under the new numbers. Cells that are still to be
allocated follow one another on both sides. -/
structure Renames (ρ : CellId → CellId) (cells other : Cells) : Prop where
  injective : Function.Injective ρ
  next : ∀ count, ρ (cells.size + count) = other.size + count
  content : ∀ cell, other.content (ρ cell) = (cells.content cell).rename ρ

namespace Renames

/-- Cells are renamed to cells. -/
theorem lt_size_iff (h : cells.Renames ρ other) : ρ cell < other.size ↔ cell < cells.size := by
  rw [← Nat.not_le, ← Nat.not_le, not_iff_not]
  constructor
  · intro hle
    obtain ⟨count, hcount⟩ := Nat.exists_eq_add_of_le hle
    rw [← h.next] at hcount
    rw [h.injective hcount]
    exact Nat.le_add_right _ _
  · intro hle
    obtain ⟨count, rfl⟩ := Nat.exists_eq_add_of_le hle
    rw [h.next]
    exact Nat.le_add_right _ _

theorem size_eq (h : cells.Renames ρ other) : ρ cells.size = other.size :=
  h.next 0

theorem resolve_eq (h : cells.Renames ρ other) (value : Value) :
    other.resolve (value.rename ρ) = (cells.resolve value).rename ρ := by
  cases value with
  | ref cell =>
    rw [Value.rename]
    exact h.content cell
  | _ => simp [Value.rename, Cells.resolve]

/-! ### New cells and new contents -/

/-- Contents have to be compared for allocated cells only. -/
theorem of_lt (injective : Function.Injective ρ)
    (next : ∀ count, ρ (cells.size + count) = other.size + count)
    (content : ∀ cell < cells.size, other.content (ρ cell) = (cells.content cell).rename ρ) :
    cells.Renames ρ other where
  injective := injective
  next := next
  content := by
    intro cell
    by_cases hcell : cell < cells.size
    · exact content cell hcell
    · obtain ⟨count, rfl⟩ := Nat.exists_eq_add_of_le (Nat.not_lt.1 hcell)
      rw [next, content_of_size_le (Nat.le_add_right _ _),
        content_of_size_le (Nat.le_add_right _ _), Value.rename, next]

theorem alloc (h : cells.Renames ρ other) (value : Value) :
    (cells.alloc value).2.Renames ρ (other.alloc (value.rename ρ)).2 := by
  refine of_lt h.injective ?_ ?_
  · intro count
    rw [size_alloc, size_alloc, Nat.add_assoc, Nat.add_assoc]
    exact h.next (1 + count)
  · intro cell hcell
    rw [size_alloc] at hcell
    by_cases hold : cell < cells.size
    · rw [content_alloc_of_lt hold, content_alloc_of_lt (h.lt_size_iff.2 hold)]
      exact h.content cell
    · obtain rfl : cell = cells.size := Nat.eq_of_lt_succ_of_not_lt hcell hold
      rw [h.size_eq, content_alloc_self, content_alloc_self]
      exact h.resolve_eq value

theorem set (h : cells.Renames ρ other) (changed : CellId) (value : Value) :
    (cells.set changed value).Renames ρ (other.set (ρ changed) (value.rename ρ)) := by
  refine of_lt h.injective ?_ ?_
  · intro count
    rw [size_set, size_set]
    exact h.next count
  · intro cell hcell
    rw [size_set] at hcell
    by_cases hsame : cell = changed
    · rw [← hsame, content_set_self hcell, content_set_self (h.lt_size_iff.2 hcell)]
      exact h.resolve_eq value
    · rw [content_set_of_ne hsame, content_set_of_ne (h.injective.ne hsame)]
      exact h.content cell

/-! ### The object under construction -/

theorem rootedAt (h : cells.Renames ρ other) (hroot : cells.RootedAt passed value root) :
    other.RootedAt passed (value.rename ρ) (root.rename ρ) := by
  induction hroot with
  | root hroot => exact .root ((Value.isRoot_rename _).trans hroot)
  | @cell passed cell root _ ih =>
    rw [Value.rename]
    refine .cell ?_
    rw [h.content]
    exact ih
  | receiver name args _ ih =>
    rw [Value.rename]
    exact ih.receiver name _

/-- The root of a renamed value is the renamed root of the value. -/
theorem exists_rootedAt (h : cells.Renames ρ other)
    (hroot : other.RootedAt passed (value.rename ρ) root) :
    ∃ former, root = former.rename ρ ∧ cells.RootedAt passed value former := by
  generalize hvalue : value.rename ρ = renamed at hroot
  induction hroot generalizing value with
  | root hroot =>
    subst hvalue
    exact ⟨value, rfl, .root ((Value.isRoot_rename value).symm.trans hroot)⟩
  | cell _ ih =>
    obtain ⟨cell, rfl, rfl⟩ := Value.rename_eq_ref_iff.1 hvalue
    obtain ⟨former, rfl, hformer⟩ := ih (h.content cell).symm
    exact ⟨former, rfl, .cell hformer⟩
  | @receiver passed receiver root name args _ ih =>
    cases value with
    | methodCall receiver name args =>
      rw [Value.rename, Value.methodCall.injEq] at hvalue
      obtain ⟨former, rfl, hformer⟩ := ih hvalue.1
      exact ⟨former, rfl, hformer.receiver name args⟩
    | _ => simp [Value.rename] at hvalue

/-- **A renamed value denotes the object under construction iff the value does.** -/
theorem denotesThis_eq (h : cells.Renames ρ other) (value : Value) :
    other.denotesThis (value.rename ρ) = cells.denotesThis value := by
  rw [Bool.eq_iff_iff, denotesThis_iff, denotesThis_iff]
  constructor
  · rintro ⟨passed, hroot⟩
    obtain ⟨former, hthis, hformer⟩ := h.exists_rootedAt hroot
    rw [Value.rename_eq_this_iff.1 hthis.symm] at hformer
    exact ⟨passed, hformer⟩
  · rintro ⟨passed, hroot⟩
    have hrenamed := h.rootedAt hroot
    rw [Value.rename] at hrenamed
    exact ⟨passed, hrenamed⟩

/-! ### Parameters -/

theorem reaches (h : cells.Renames ρ other) (hreach : cells.Reaches value target) :
    other.Reaches (value.rename ρ) (target.rename ρ) := by
  induction hreach with
  | refl => exact .refl _
  | tail _ step ih =>
    refine ih.trans (.head ?_ (.refl _))
    cases step with
    | operand mem =>
      refine .operand ?_
      rw [Value.operands_rename]
      exact List.mem_map_of_mem mem
    | content cell =>
      rw [← h.content, Value.rename]
      exact .content _

/-- What a renamed value leads to is renamed, too. -/
theorem exists_reaches (h : cells.Renames ρ other)
    (hreach : other.Reaches (value.rename ρ) target) :
    ∃ former, target = former.rename ρ ∧ cells.Reaches value former := by
  induction hreach with
  | refl => exact ⟨value, rfl, .refl _⟩
  | tail _ step ih =>
    obtain ⟨former, hformer, hreach⟩ := ih
    cases step with
    | operand mem =>
      rw [hformer, Value.operands_rename] at mem
      obtain ⟨operand, hoperand, rfl⟩ := List.mem_map.1 mem
      exact ⟨operand, rfl, hreach.trans (.head (.operand hoperand) (.refl _))⟩
    | content cell =>
      obtain ⟨cell, rfl, rfl⟩ := Value.rename_eq_ref_iff.1 hformer.symm
      exact ⟨_, h.content cell, hreach.trans (.head (.content cell) (.refl _))⟩

theorem dependsOnParameter_eq (h : cells.Renames ρ other) (value : Value) :
    other.dependsOnParameter (value.rename ρ) = cells.dependsOnParameter value := by
  rw [Bool.eq_iff_iff, dependsOnParameter_iff, dependsOnParameter_iff]
  refine exists_congr fun index => exists_congr fun kind => ?_
  constructor
  · intro hreach
    obtain ⟨former, hformer, hreach⟩ := h.exists_reaches hreach
    rwa [Value.rename_eq_parameter_iff.1 hformer.symm] at hreach
  · intro hreach
    have hrenamed := h.reaches hreach
    rwa [Value.rename] at hrenamed

/-! ### Verdicts and texts -/

theorem parameter?_rename (value : Value) :
    Verdict.parameter? (value.rename ρ) = Verdict.parameter? value := by
  cases value <;> simp [Value.rename, Verdict.parameter?]

theorem binding?_eq (h : cells.Renames ρ other) (value : Value) :
    Verdict.binding? other (value.rename ρ) = Verdict.binding? cells value := by
  cases value with
  | staticCall owner name args =>
    rcases args with _ | ⟨arg, _ | ⟨second, more⟩⟩ <;>
      simp [Value.rename, Verdict.binding?, h.resolve_eq, parameter?_rename]
  | methodCall receiver name args =>
    cases args <;> simp [Value.rename, Verdict.binding?, h.resolve_eq, parameter?_rename]
  | _ => simp [Value.rename, Verdict.binding?]

/-- **The verdict on a renamed value is that on the value.** -/
theorem verdict_eq (h : cells.Renames ρ other) (value : Value) :
    Verdict.of other (value.rename ρ) = Verdict.of cells value := by
  rw [Verdict.of, Verdict.of, h.binding?_eq, h.dependsOnParameter_eq]

/-- The text of a renamed value is that of the value, wherever it is written. -/
theorem renderOnto_eq (h : cells.Renames ρ other) (path : List CellId) (depth : Nat) (page : Page)
    (value : Value) :
    other.renderOnto (path.map ρ) depth page (value.rename ρ) =
      cells.renderOnto path depth page value := by
  induction depth generalizing path page value with
  | zero => rfl
  | succ depth ih =>
    rw [renderOnto, renderOnto]
    split
    · rfl
    · cases value with
      | ref cell =>
        have hpath : (path.map ρ).contains (ρ cell) = path.contains cell := by
          rw [Bool.eq_iff_iff, List.contains_iff_mem, List.contains_iff_mem]
          exact List.mem_map_of_injective h.injective
        simp only [Value.rename, hpath, h.content, ← List.map_cons, ih]
      | methodCall receiver name args =>
        cases args <;> simp only [Value.rename, List.map_nil, List.map_cons, List.foldl_map, ih]
      | staticCall owner name args =>
        cases args <;> simp only [Value.rename, List.map_nil, List.map_cons, List.foldl_map, ih]
      | fieldRead receiver name => simp only [Value.rename, ih]
      | binaryOp operator left right => simp only [Value.rename, ih]
      | _ => simp only [Value.rename]

/-- **The text of a renamed value is that of the value.** -/
theorem render_eq (h : cells.Renames ρ other) (value : Value) :
    other.render (value.rename ρ) = cells.render value := by
  rw [render, render, ← h.renderOnto_eq [], List.map_nil]

end Renames

end Cells

/-- An assigned field with other numbers for the cells of its value. -/
def renameAssigned (ρ : CellId → CellId) (assigned : String × Value) : String × Value :=
  (assigned.1, assigned.2.rename ρ)

/-- **Renamed assignments have the same mapping**, or are rejected for the same field with the same
text. -/
theorem Mapping.ofAssignments_rename {ρ : CellId → CellId} {cells other : Cells}
    (h : cells.Renames ρ other) (assignments : List (String × Value)) :
    ofAssignments other (assignments.map (renameAssigned ρ)) = ofAssignments cells assignments := by
  induction assignments with
  | nil => rfl
  | cons assigned assignments ih =>
    rw [List.map_cons, renameAssigned, ofAssignments, ofAssignments, h.resolve_eq, h.verdict_eq,
      h.render_eq, ih]

end FieldFlow
