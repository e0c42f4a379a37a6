import FieldFlow.Proofs.Verdict

/-!
# Frames

What is known of a value depends on the cells that it leads to and on no others. Whatever happens
to other cells leaves the value as it is.

## Main Definitions

* `Cells.AgreeFrom`: every cell that a value leads to has kept its content

## Main Statements

* `Cells.AgreeFrom.reaches_iff`: what can be reached from the value is the same
* `Cells.AgreeFrom.verdict_eq`, `Cells.AgreeFrom.render_eq`: so are its verdict and its text
* `Cells.reaches_of_change`: what can be reached after one cell has changed

## Design Notes

Agreement is asked of the cells that can be reached before the change. It follows that the same
cells can be reached after it, so agreement passes along a chain of changes.
-/

namespace FieldFlow.Cells

variable {cells later last : Cells} {value target : Value} {changed : CellId}

/-- A cell that was never allocated leads nowhere. -/
theorem Reaches.eq_of_size_le {cell : CellId} (h : cells.Reaches (.ref cell) target)
    (hsize : cells.size ≤ cell) : target = .ref cell := by
  induction h with
  | refl => rfl
  | tail _ step ih =>
    subst ih
    cases step with
    | operand mem => cases mem
    | content => exact content_of_size_le hsize

/-- What can be reached from a node that is no reference can be reached from one of its operands. -/
theorem Reaches.exists_operand {cell : CellId} (h : cells.Reaches value (.ref cell))
    (direct : value.isRef = false) :
    ∃ operand ∈ value.operands, cells.Reaches operand (.ref cell) := by
  rcases Relation.ReflTransGen.cases_head h with rfl | ⟨child, step, h⟩
  · cases direct
  · cases step with
    | operand mem => exact ⟨child, mem, h⟩
    | content => cases direct

/-- Every cell that can be reached from the value has the same content in the later cells. -/
def AgreeFrom (cells later : Cells) (value : Value) : Prop :=
  ∀ cell, cells.Reaches value (.ref cell) → later.content cell = cells.content cell

namespace AgreeFrom

theorem of_reaches (h : cells.AgreeFrom later value) (hreach : cells.Reaches value target) :
    cells.AgreeFrom later target :=
  fun cell hcell => h cell (hreach.trans hcell)

theorem operand {operand : Value} (h : cells.AgreeFrom later value)
    (mem : operand ∈ value.operands) : cells.AgreeFrom later operand :=
  h.of_reaches (.head (.operand mem) (.refl _))

/-- **What can be reached stays the same.** -/
theorem reaches_iff (h : cells.AgreeFrom later value) :
    later.Reaches value target ↔ cells.Reaches value target := by
  constructor
  · intro hreach
    induction hreach with
    | refl => exact .refl _
    | tail _ step ih =>
      cases step with
      | operand mem => exact ih.trans (.head (.operand mem) (.refl _))
      | content cell =>
        rw [h cell ih]
        exact ih.trans (.head (.content cell) (.refl _))
  · intro hreach
    induction hreach with
    | refl => exact .refl _
    | tail hbefore step ih =>
      cases step with
      | operand mem => exact ih.trans (.head (.operand mem) (.refl _))
      | content cell =>
        rw [← h cell hbefore]
        exact ih.trans (.head (.content cell) (.refl _))

theorem refl (cells : Cells) (value : Value) : cells.AgreeFrom cells value :=
  fun _ _ => rfl

theorem trans (h : cells.AgreeFrom later value) (h' : later.AgreeFrom last value) :
    cells.AgreeFrom last value := by
  intro cell hcell
  rw [h' cell (h.reaches_iff.2 hcell), h cell hcell]

theorem resolve_eq (h : cells.AgreeFrom later value) :
    later.resolve value = cells.resolve value := by
  cases value with
  | ref cell => exact h cell (.refl _)
  | _ => rfl

/-! ### Verdicts and texts -/

theorem dependsOnParameter_eq (h : cells.AgreeFrom later value) :
    later.dependsOnParameter value = cells.dependsOnParameter value := by
  rw [Bool.eq_iff_iff, dependsOnParameter_iff, dependsOnParameter_iff]
  constructor
  · rintro ⟨index, kind, hreach⟩
    exact ⟨index, kind, h.reaches_iff.1 hreach⟩
  · rintro ⟨index, kind, hreach⟩
    exact ⟨index, kind, h.reaches_iff.2 hreach⟩

theorem binding?_eq (h : cells.AgreeFrom later value) :
    Verdict.binding? later value = Verdict.binding? cells value := by
  unfold Verdict.binding?
  split
  · rfl
  · rw [(h.operand List.mem_cons_self).resolve_eq]
  · rw [(h.operand List.mem_cons_self).resolve_eq]
  · rfl

/-- **The verdict on the value stays the same.** -/
theorem verdict_eq (h : cells.AgreeFrom later value) :
    Verdict.of later value = Verdict.of cells value := by
  rw [Verdict.of, Verdict.of, h.binding?_eq, h.dependsOnParameter_eq]

/-- The text of the value stays the same, wherever it is written. -/
theorem renderOnto_eq (h : cells.AgreeFrom later value) (path : List CellId) (depth : Nat)
    (page : Page) :
    later.renderOnto path depth page value = cells.renderOnto path depth page value := by
  induction depth generalizing path page value with
  | zero => rfl
  | succ depth ih =>
    have hoperand : ∀ operand ∈ value.operands, ∀ page,
        later.renderOnto path depth page operand = cells.renderOnto path depth page operand :=
      fun operand mem page => ih (h.operand mem) path page
    -- The arguments of a call are written one after another.
    have hargs : ∀ args : List Value, (∀ arg ∈ args, arg ∈ value.operands) → ∀ page : Page,
        args.foldl (fun page arg => later.renderOnto path depth (page.append ", ") arg) page =
          args.foldl (fun page arg => cells.renderOnto path depth (page.append ", ") arg) page := by
      intro args hmem page
      exact List.foldl_ext _ _ page fun page arg harg => hoperand arg (hmem arg harg) _
    rw [renderOnto, renderOnto]
    split
    · rfl
    · cases value with
      | ref cell =>
        have hcontent : cells.AgreeFrom later (cells.content cell) :=
          h.of_reaches (.head (.content cell) (.refl _))
        simp only [h cell (.refl _), ih hcontent]
      | methodCall receiver name args =>
        have hreceiver := hoperand receiver List.mem_cons_self
        cases args with
        | nil => simp only [hreceiver]
        | cons first more =>
          have hfirst := hoperand first (.tail _ List.mem_cons_self)
          simp only [hreceiver, hfirst, hargs more fun arg harg => .tail _ (.tail _ harg)]
      | staticCall owner name args =>
        cases args with
        | nil => rfl
        | cons first more =>
          have hfirst := hoperand first List.mem_cons_self
          simp only [hfirst, hargs more fun arg harg => .tail _ harg]
      | fieldRead receiver name => simp only [hoperand receiver List.mem_cons_self]
      | binaryOp operator left right =>
        have hleft := hoperand left List.mem_cons_self
        have hright := hoperand right (.tail _ List.mem_cons_self)
        simp only [hleft, hright]
      | _ => rfl

/-- **The text of the value stays the same.** -/
theorem render_eq (h : cells.AgreeFrom later value) : later.render value = cells.render value := by
  rw [render, render, h.renderOnto_eq]

end AgreeFrom

/-! ### Changes -/

/-- After one cell has changed, what can be reached could be reached before, or can be reached from
the new content of the cell as the others were before. -/
theorem reaches_of_change
    (hothers : ∀ other, other ≠ changed → later.content other = cells.content other)
    (h : later.Reaches value target) :
    cells.Reaches value target ∨
      cells.Reaches value (.ref changed) ∧ cells.Reaches (later.content changed) target := by
  induction h with
  | refl => exact .inl (.refl _)
  | @tail middle target _ step ih =>
    cases step with
    | operand mem =>
      have hlast : cells.Reaches middle target := .head (.operand mem) (.refl _)
      rcases ih with hbefore | ⟨hchanged, hnew⟩
      · exact .inl (hbefore.trans hlast)
      · exact .inr ⟨hchanged, hnew.trans hlast⟩
    | content cell =>
      by_cases hsame : cell = changed
      · subst hsame
        -- The path is cut at the last time that it comes to the changed cell.
        rcases ih with hbefore | ⟨hchanged, -⟩
        · exact .inr ⟨hbefore, .refl _⟩
        · exact .inr ⟨hchanged, .refl _⟩
      · rw [hothers cell hsame]
        have hlast : cells.Reaches (.ref cell) (cells.content cell) :=
          .head (.content cell) (.refl _)
        rcases ih with hbefore | ⟨hchanged, hnew⟩
        · exact .inl (hbefore.trans hlast)
        · exact .inr ⟨hchanged, hnew.trans hlast⟩

/-- A value that does not lead to the changed cell is left as it is. -/
theorem agreeFrom_of_change
    (hothers : ∀ other, other ≠ changed → later.content other = cells.content other)
    (h : ¬ cells.Reaches value (.ref changed)) : cells.AgreeFrom later value := by
  intro cell hcell
  apply hothers
  rintro rfl
  exact h hcell

end FieldFlow.Cells
