import FieldFlow.Proofs.Machine.Run
import FieldFlow.Proofs.Value.Growth
import Mathlib.Data.List.Nodup

/-!
# What every run keeps

The cells and the assigned fields along a run. Cells stay, and their contents are only wrapped in
method calls. Assigned fields stay with their values, and further ones are appended to them, a new
field each time.

## Main Statements

* `Machine.Transition.grows`, `Machine.execute_grows`: cells along one instruction and along a run
* `Machine.Transition.assignments`, `Machine.execute_assignments_grow`: the same for assigned fields
* `Machine.Visits.assigned_unique`: an assigned field has one value
* `Machine.Visits.exists_store`: every assigned field has been stored from the stack
-/

namespace FieldFlow

namespace State

variable (state : State) (value : Value)

@[simp]
theorem assignments_pushLiteral : (state.pushLiteral value).assignments = state.assignments := rfl

@[simp]
theorem assignments_alloc : (state.alloc value).2.assignments = state.assignments := rfl

@[simp]
theorem assignments_rebind (cell : CellId) :
    (state.rebind cell value).assignments = state.assignments := rfl

@[simp]
theorem assignments_push (isReference : Bool) :
    (state.push isReference value).assignments = state.assignments := by
  unfold push
  split <;> rfl

@[simp]
theorem assignments_recordName (slot : Nat) (name : String) :
    (state.recordName slot name).assignments = state.assignments := by
  unfold recordName
  split <;> rfl

theorem cells_recordName (slot : Nat) (name : String) :
    (state.recordName slot name).cells = state.cells := by
  unfold recordName
  split <;> rfl

/-- Another field may be assigned. -/
theorem nodup_fields_append {assignments : List (String × Value)} {field : String}
    (h : (assignments.map (·.1)).Nodup) (hfresh : field ∉ assignments.map (·.1)) (value : Value) :
    ((assignments ++ [(field, value)]).map (·.1)).Nodup := by
  rw [List.map_append, List.map_singleton, ← List.concat_eq_append]
  exact h.concat hfresh

theorem grows_push {cells : Cells} (h : cells.Grows state.cells) (isReference : Bool) :
    cells.Grows (state.push isReference value).cells := by
  unfold push
  split
  · exact h.trans (Cells.grows_alloc value)
  · exact h

end State

namespace Machine

variable {context : Context} {instruction : Instruction} {state next last : State}
variable {body : Body} {options : Options} {executed : List Instruction}
variable {field : String} {value value' : Value}

/-! ### Cells -/

theorem grows_leave {cells : Cells} (h : cells.Grows state.cells) (returns : Option Kind)
    (result : Value) : cells.Grows (leave returns result state).cells := by
  cases returns with
  | none => exact h
  | some kind => exact state.grows_push result h kind.isReference

/-- One instruction wraps the content of a cell in a call, or changes no cell. -/
theorem Transition.grows (h : Transition context state instruction next) :
    state.cells.Grows next.cells := by
  cases h with
  | pushNull | new _ | loadCell _ => exact Cells.grows_alloc _
  | pushConst _ | getStatic _ _ _ | getField _ _ _ =>
    apply State.grows_push
    exact .refl _
  | staticCall _ _ _ _ _ | valueCall _ _ _ _ _ _ =>
    apply grows_leave
    exact .refl _
  | @cellCall call args rest cell =>
    apply grows_leave
    exact Cells.grows_set cell call.name args
  | localName slot name =>
    rw [State.cells_recordName]
    exact .refl _
  | _ => exact .refl _

/-- **Cells only grow.** After some instructions every cell is still there, and its content is the
former one with method calls around it. -/
theorem execute_grows (h : execute context executed state = .ok last) :
    state.cells.Grows last.cells := by
  refine execute_induction (P := fun later => state.cells.Grows later.cells) ?_ h (.refl _)
  intro instruction later next htransition hgrows
  exact hgrows.trans htransition.grows

/-! ### Assigned fields -/

@[simp]
theorem assignments_leave (returns : Option Kind) (result : Value) (state : State) :
    (leave returns result state).assignments = state.assignments := by
  cases returns with
  | none => rfl
  | some kind => exact State.assignments_push state result kind.isReference

/-- One instruction leaves the assignments alone, or appends one of a new field. -/
theorem Transition.assignments (h : Transition context state instruction next) :
    next.assignments = state.assignments ∨
      ∃ field value, field ∉ state.assignments.map (·.1) ∧
        next.assignments = state.assignments ++ [(field, value)] := by
  cases h with
  | store taken own fresh => exact .inr ⟨_, _, fresh, rfl⟩
  | _ =>
    left
    simp

/-- **Assignments stay.** What is assigned before some instructions is still assigned after them,
before everything that they assign. -/
theorem execute_assignments_grow (h : execute context executed state = .ok last) :
    state.assignments <+: last.assignments := by
  refine execute_induction (P := fun later => state.assignments <+: later.assignments) ?_ h
    List.prefix_rfl
  intro instruction later next htransition hgrown
  rcases htransition.assignments with heq | ⟨field, value, -, heq⟩
  · rw [heq]
    exact hgrown
  · rw [heq]
    exact hgrown.trans (List.prefix_append _ _)

/-- What is assigned in a state that a run visits is assigned at its end. -/
theorem Visits.assigned_of_run (h : Visits body options executed state)
    (hrun : run body options = .ok last) (hvalue : (field, value) ∈ state.assignments) :
    (field, value) ∈ last.assignments := by
  obtain ⟨rest, hrest⟩ := h.first
  have hlast := (Visits.of_run hrun).reached
  rw [← hrest, execute_append, h.reached] at hlast
  exact (execute_assignments_grow hlast).subset hvalue

/-- An assigned field was assigned before, or by the instruction, from the top of the stack. -/
theorem Transition.assigned (h : Transition context state instruction next)
    (hassigned : (field, value) ∈ next.assignments) :
    (field, value) ∈ state.assignments ∨
      instruction = .putField field ∧ value ∈ state.stack := by
  cases h with
  | store taken own fresh =>
    rcases List.mem_append.1 hassigned with hbefore | hnew
    · exact .inl hbefore
    · cases List.mem_singleton.1 hnew
      exact .inr ⟨rfl, taken ▸ List.mem_cons_self⟩
  | _ =>
    left
    simpa using hassigned

/-- **Every assigned field has been stored from the stack.** -/
theorem Visits.exists_store (h : Visits body options executed state)
    (hassigned : (field, value) ∈ state.assignments) :
    ∃ before after earlier, executed = before ++ .putField field :: after ∧
      Visits body options before earlier ∧ value ∈ earlier.stack := by
  refine Visits.induction (P := fun executed state => (field, value) ∈ state.assignments →
    ∃ before after earlier, executed = before ++ .putField field :: after ∧
      Visits body options before earlier ∧ value ∈ earlier.stack) nofun ?_ h hassigned
  intro executed instruction state next hvisits _ htransition ih hassigned
  rcases htransition.assigned hassigned with hbefore | ⟨rfl, hmem⟩
  · obtain ⟨before, after, earlier, rfl, hearlier⟩ := ih hbefore
    exact ⟨before, after ++ [instruction], earlier, by simp, hearlier⟩
  · exact ⟨executed, [], state, rfl, hvisits, hmem⟩

end Machine

end FieldFlow
