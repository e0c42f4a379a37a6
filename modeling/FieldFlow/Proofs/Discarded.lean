import FieldFlow.Analysis
import FieldFlow.Proofs.Machine.Locals
import FieldFlow.Proofs.Machine.Renaming

/-!
# Discarded values

A value that is pushed and popped again at once may leave a further cell behind, and nothing else.
What the analysis says of a constructor does not depend on it.

## Main Definitions

* `Instruction.Discardable`: instructions that push a value, whatever is on the stack
* `AnalysisError.postponed`: an error that says where a return stands, with the return further back

## Main Statements

* `Machine.Visits.exists_discard`: a discarded value leads to a renamed state
* `Machine.runFrom_add`: the offset of a run is only used for that error
* `Body.analyze_discard`: the analysis of a constructor with a value that is discarded

## Design Notes

The number of a cell is the number of cells before it, so the further cell shifts the numbers of all
cells that are allocated after it. The two runs are the same up to these numbers.
-/

namespace FieldFlow

/-! ### Errors with offsets -/

section Offsets

variable {α β : Type} {x : Except AnalysisError α} {f : α → Except AnalysisError β}

/-- The error with further instructions before a return that is not the last. -/
def AnalysisError.postponed (count : Nat) : AnalysisError → AnalysisError
  | .unsupported (.afterReturn offset) => .unsupported (.afterReturn (offset + count))
  | error => error

/-- The computation does not fail because of instructions that follow the return. -/
def Unplaced (x : Except AnalysisError α) : Prop :=
  ∀ offset, x ≠ .error (.unsupported (.afterReturn offset))

theorem Unplaced.ok (a : α) : Unplaced (.ok a : Except AnalysisError α) := by
  intro offset heq
  cases heq

theorem Unplaced.error {error : AnalysisError}
    (h : ∀ offset, error ≠ .unsupported (.afterReturn offset)) :
    Unplaced (.error error : Except AnalysisError α) := by
  intro offset heq
  exact h offset (Except.error.inj heq)

theorem Unplaced.bind (h : Unplaced x) (hnext : ∀ a, Unplaced (f a)) : Unplaced (x >>= f) := by
  intro offset heq
  cases x with
  | error error =>
    cases heq
    exact h offset rfl
  | ok a => exact hnext a offset heq

theorem Unplaced.mapError_eq (h : Unplaced x) (count : Nat) :
    x.mapError (·.postponed count) = x := by
  cases x with
  | error error =>
    have hsame : error.postponed count = error := by
      unfold AnalysisError.postponed
      split
      next offset => exact absurd rfl (h offset)
      next => rfl
    exact congrArg Except.error hsame
  | ok a => rfl

/-- Errors may be postponed before a computation whose own errors have no offset. -/
theorem mapError_bind (hnext : ∀ a, Unplaced (f a)) (count : Nat) :
    (x >>= f).mapError (·.postponed count) = x.mapError (·.postponed count) >>= f := by
  cases x with
  | error error => rfl
  | ok a => exact (hnext a).mapError_eq count

end Offsets

namespace State

variable (state : State)

theorem unplaced_pop : Unplaced state.pop := by
  intro offset
  rw [pop]
  split <;> simp

theorem unplaced_peek : Unplaced state.peek := by
  intro offset
  rw [peek]
  split <;> simp

theorem unplaced_popMany (count : Nat) : Unplaced (state.popMany count) := by
  intro offset
  rw [popMany]
  split <;> simp

theorem unplaced_load (slot : Nat) : Unplaced (state.load slot) := by
  intro offset
  rw [load]
  split <;> simp

theorem unplaced_assign (field : String) (value : Value) : Unplaced (state.assign field value) := by
  intro offset
  rw [assign]
  split <;> simp

end State

namespace Machine

variable {context : Context} {state : State}

theorem unplaced_callMethod (call : Call) (state : State) : Unplaced (callMethod call state) := by
  rw [callMethod]
  refine (state.unplaced_popMany _).bind ?_
  rintro ⟨args, state⟩
  dsimp only
  split
  next => split <;> exact .ok _
  next =>
    refine state.unplaced_pop.bind ?_
    rintro ⟨receiver, state⟩
    dsimp only
    split <;> split <;> exact .ok _

theorem unplaced_invoke (context : Context) (call : Call) (state : State) :
    Unplaced (invoke context call state) := by
  rw [invoke]
  split
  · split
    · exact state.unplaced_pop.bind fun _ => .ok _
    · exact .error (by simp)
  · split
    · exact .error (by simp)
    · exact unplaced_callMethod call state

/-- **No instruction says where it stands.** -/
theorem unplaced_step (context : Context) (instruction : Instruction) (state : State) :
    Unplaced (step context instruction state) := by
  cases instruction with
  | pop => exact state.unplaced_pop.bind fun _ => .ok _
  | pop2 => exact state.unplaced_pop.bind fun _ => (State.unplaced_pop _).bind fun _ => .ok _
  | dup => exact state.unplaced_peek.bind fun _ => .ok _
  | binaryOp operator =>
    exact state.unplaced_pop.bind fun _ => (State.unplaced_pop _).bind fun _ => .ok _
  | loadLocal slot => exact (state.unplaced_load _).bind fun _ => .ok _
  | getField name kind => exact state.unplaced_pop.bind fun _ => .ok _
  | putField field =>
    refine state.unplaced_pop.bind fun _ => (State.unplaced_pop _).bind fun _ => ?_
    dsimp only
    split
    · exact (State.unplaced_assign _ _ _).bind fun _ => .ok _
    · exact .ok _
  | invoke call => exact (unplaced_invoke context call state).bind fun _ => .ok _
  | returnVoid =>
    rw [step]
    split
    · exact .ok _
    · exact .error (by simp)
  | other mnemonic => exact .error (by simp)
  | _ => exact .ok _

theorem unplaced_advance (context : Context) (instruction : Instruction) (state : State) :
    Unplaced (advance context instruction state) :=
  (unplaced_step context instruction state).bind fun _ => .ok _

theorem unplaced_execute (context : Context) (executed : List Instruction) (state : State) :
    Unplaced (execute context executed state) := by
  induction executed generalizing state with
  | nil => exact .ok state
  | cons instruction rest ih => exact (unplaced_advance context instruction state).bind ih

/-- **A run that starts further back fails further back.** -/
theorem runFrom_add (context : Context) (offset count : Nat) (instructions : List Instruction)
    (state : State) : runFrom context (offset + count) instructions state =
      (runFrom context offset instructions state).mapError (·.postponed count) := by
  induction instructions generalizing offset state with
  | nil => rfl
  | cons instruction rest ih =>
    rw [runFrom_cons, runFrom_cons]
    cases hnext : advance context instruction state with
    | error error =>
      have hadvance := (unplaced_advance context instruction state).mapError_eq count
      rw [hnext] at hadvance
      exact hadvance.symm
    | ok next =>
      show (if instruction = .returnVoid then _ else _) = Except.mapError _ (if _ then _ else _)
      split
      · split <;> rfl
      · rw [Nat.add_right_comm]
        exact ih (offset + 1) next

/-! ### Values that are discarded -/

variable {body : Body} {options : Options} {executed : List Instruction} {later : State}
variable {instruction : Instruction} {top : Value}

/-- What an instruction has pushed can be popped again. -/
theorem Transition.execute_pop (h : Transition context state instruction (later.pushLiteral top)) :
    Machine.execute context [instruction, .pop] state = .ok later :=
  h.execute_cons (Transition.pop rfl).execute

end Machine

/-! ### Further cells -/

/-- The numbers of cells after one more cell has taken the number of the bound. -/
def Cells.shift (bound cell : Nat) : Nat :=
  if cell < bound then cell else cell + 1

theorem Cells.shift_injective (bound : Nat) : Function.Injective (shift bound) := by
  intro cell other h
  unfold shift at h
  split at h <;> split at h <;> omega

namespace State.WellFormed

variable {state : State} {ρ : CellId → CellId} {cells : Cells}

/-- A state is renamed to itself if its cells keep their numbers, and other cells may be added. -/
theorem renames_of_extends (h : state.WellFormed) (hextends : state.cells.Extends cells)
    (hkept : ∀ cell < state.cells.size, ρ cell = cell) (injective : Function.Injective ρ)
    (next : ∀ count, ρ (state.cells.size + count) = cells.size + count) :
    state.Renames ρ { state with cells } := by
  have hheld : ∀ value, state.Holds value → value.rename ρ = value :=
    fun value hvalue => Value.rename_of_scoped (h.mentioned value hvalue) hkept
  refine ⟨.of_lt injective next ?_, rfl, ?_, ?_, ?_, rfl⟩
  · intro cell hcell
    rw [hkept cell hcell, hheld _ (.content hcell)]
    exact hextends.kept cell hcell
  · rw [Array.map_congr_left (g := id) fun held hmem => hheld held (.slot hmem), Array.map_id]
  · rw [List.map_congr_left (g := id) fun held hmem => hheld held (.entry hmem), List.map_id]
  · rw [List.map_congr_left (g := id) fun assigned hmem =>
      congrArg (Prod.mk assigned.1) (hheld assigned.2 (.assigned hmem)), List.map_id]

/-- Every state is a renaming of itself. -/
theorem renames_self (h : state.WellFormed) : state.Renames id state :=
  h.renames_of_extends (.refl _) (fun _ _ => rfl) Function.injective_id fun _ => rfl

/-- One more cell shifts the numbers of the cells to come. -/
theorem renames_alloc (h : state.WellFormed) (value : Value) :
    state.Renames (Cells.shift state.cells.size) (state.alloc value).2 := by
  have hnext : ∀ count, Cells.shift state.cells.size (state.cells.size + count) =
      (state.cells.alloc value).2.size + count := by
    intro count
    rw [Cells.size_alloc, Cells.shift, if_neg (Nat.not_lt.2 (Nat.le_add_right _ _)),
      Nat.add_right_comm]
  exact h.renames_of_extends ((Cells.Extends.refl _).alloc value) (fun _ hcell => if_pos hcell)
    (Cells.shift_injective _) hnext

end State.WellFormed

/-- The instruction pushes a value, whatever is on the stack. A slot that is loaded has to be among
the given number of slots. -/
inductive Instruction.Discardable (slots : Nat) : Instruction → Prop
  | pushNull : Discardable slots .pushNull
  | new (className : String) : Discardable slots (.new className)
  | pushConst (constant : Constant) : Discardable slots (.pushConst constant)
  | getStatic (owner name : String) (kind : Kind) : Discardable slots (.getStatic owner name kind)
  | loadLocal {slot : UInt16} (lt : slot.toNat < slots) : Discardable slots (.loadLocal slot)

namespace Machine

variable {context : Context} {body : Body} {options : Options} {executed : List Instruction}
variable {state : State} {instruction : Instruction}

/-- A value that is pushed, behind a new cell or not, can be popped again. -/
theorem Transition.exists_discard {isReference : Bool} {value : Value}
    (h : Transition context state instruction (state.push isReference value))
    (hstate : state.WellFormed) :
    ∃ ρ later, Machine.execute context [instruction, .pop] state = .ok later ∧
      state.Renames ρ later := by
  rw [State.push] at h
  split at h
  · exact ⟨_, _, h.execute_pop, hstate.renames_alloc value⟩
  · exact ⟨_, _, h.execute_pop, hstate.renames_self⟩

/-- **A value that is discarded leads to a renamed state.** -/
theorem Visits.exists_discard (h : Visits body options executed state)
    (hdiscard : instruction.Discardable body.parameterSlots) :
    ∃ ρ later, execute (.of body options) [instruction, .pop] state = .ok later ∧
      state.Renames ρ later := by
  have hstate := h.regular.toWellFormed
  cases hdiscard with
  | pushNull => exact ⟨_, _, Transition.pushNull.execute_pop, hstate.renames_alloc .null⟩
  | new className =>
    exact ⟨_, _, (Transition.new className).execute_pop, hstate.renames_alloc (.new className)⟩
  | pushConst constant => exact (Transition.pushConst constant).exists_discard hstate
  | getStatic owner name kind =>
    exact (Transition.getStatic owner name kind).exists_discard hstate
  | @loadLocal slot hlt =>
    have hsize : state.locals.size = body.parameterSlots := h.laid.size
    have hheld := Array.getElem?_eq_getElem (hsize ▸ hlt)
    generalize state.locals[slot.toNat] = held at hheld
    cases hdirect : held.isRef with
    | true =>
      cases held with
      | ref cell =>
        exact ⟨_, _, (Transition.loadCell hheld).execute_pop, hstate.renames_alloc (.ref cell)⟩
      | _ => cases hdirect
    | false => exact ⟨_, _, (Transition.loadValue hheld hdirect).execute_pop, hstate.renames_self⟩

end Machine

/-! ### Decisions -/

theorem Mapping.unplaced_ofAssignments (cells : Cells) (assignments : List (String × Value)) :
    Unplaced (ofAssignments cells assignments) := by
  induction assignments with
  | nil => exact .ok _
  | cons assigned assignments ih =>
    rw [ofAssignments]
    split
    · exact .error (by simp)
    · exact ih.bind fun _ => .ok _
    · exact ih.bind fun _ => .ok _

/-- What is decided on the final state of a run. -/
def State.conclude (state : State) : Except AnalysisError Analysis := do
  let mapping ← Mapping.ofState state
  pure ⟨mapping, state.parameterNames⟩

theorem State.unplaced_conclude (state : State) : Unplaced state.conclude :=
  (Mapping.unplaced_ofAssignments state.cells state.assignments).bind fun _ => .ok _

theorem State.Renames.conclude_eq {ρ : CellId → CellId} {state other : State}
    (h : state.Renames ρ other) : other.conclude = state.conclude := by
  rw [conclude, conclude, h.ofState_eq, h.parameterNames_eq]

/-- Runs that agree up to the numbers of cells lead to the same decision. -/
theorem bind_conclude_eq {ρ : CellId → CellId} {x y : Except AnalysisError State}
    (h : Agree (State.Renames ρ) x y) : y >>= State.conclude = x >>= State.conclude := by
  cases h with
  | error error => rfl
  | ok h => exact h.conclude_eq

namespace Body

variable {body : Body} {options : Options}

theorem analyze_eq (hlimit : body.instructions.length ≤ options.maxInstructions) :
    body.analyze options = Machine.runFrom (.of body options) 0 body.instructions
      (.initial body.parameters) >>= State.conclude := by
  have hrun : Machine.run body options = Machine.runFrom (.of body options) 0 body.instructions
      (.initial body.parameters) := if_neg (Nat.not_lt.2 hlimit)
  rw [← hrun]
  rfl

/-- **Discarded values do not matter.** A constructor in which a value is pushed and popped again at
once, anywhere before the first return or right in front of it, has the outcome that it has without
these two instructions: the same mapping and the same names, or the same error with the same text.
Only an error that says where the return stands says that it stands two instructions further
back. -/
theorem analyze_discard (body : Body) (options : Options) (before after : List Instruction)
    (instruction : Instruction) (hsplit : body.instructions = before ++ after)
    (hgoing : .returnVoid ∉ before) (hdiscard : instruction.Discardable body.parameterSlots)
    (hlimit : body.instructions.length + 2 ≤ options.maxInstructions) :
    { body with instructions := before ++ instruction :: .pop :: after }.analyze options =
      (body.analyze options).mapError (·.postponed 2) := by
  have hwithin : body.instructions.length ≤ options.maxInstructions :=
    Nat.le_trans (Nat.le_add_right _ _) hlimit
  have hlonger : (before ++ instruction :: .pop :: after).length ≤ options.maxInstructions := by
    rw [hsplit] at hlimit
    simp only [List.length_append, List.length_cons] at hlimit ⊢
    omega
  have hpair : .returnVoid ∉ [instruction, .pop] := by
    cases hdiscard <;> simp
  rw [analyze_eq hwithin, analyze_eq hlonger, hsplit]
  show Machine.runFrom (.of body options) 0 (before ++ ([instruction, .pop] ++ after))
    (.initial body.parameters) >>= _ = _
  rw [Machine.runFrom_append _ _ hgoing, Machine.runFrom_append _ _ hgoing]
  have hexecute := Machine.unplaced_execute (.of body options) before (.initial body.parameters)
  cases hbefore : Machine.execute (.of body options) before (.initial body.parameters) with
  | error error =>
    rw [hbefore] at hexecute
    exact congrArg Except.error (Except.error.inj (hexecute.mapError_eq 2)).symm
  | ok state =>
    have hvisits : Machine.Visits body options before state := by
      refine ⟨hwithin, ⟨after, hsplit.symm⟩, ?_, hbefore⟩
      rintro _ hmem rfl
      exact hgoing (List.dropLast_subset _ hmem)
    obtain ⟨ρ, later, hdiscarded, hrenames⟩ := hvisits.exists_discard hdiscard
    have hagree := Machine.runFrom_agree hrenames (.of body options) (0 + before.length) after
    show Machine.runFrom _ _ ([instruction, .pop] ++ after) state >>= State.conclude =
      Except.mapError _ (Machine.runFrom _ _ after state >>= State.conclude)
    rw [Machine.runFrom_append _ _ hpair, hdiscarded, ← bind_conclude_eq hagree,
      mapError_bind State.unplaced_conclude, ← Machine.runFrom_add]
    rfl

/-- A constructor that stores an object made from its parameter. -/
def tagged : Body where
  declaringClass := "Tag"
  superclass := "java.lang.Object"
  parameters := [.reference "java.lang.String"]
  instructions := [
    .loadLocal 0,
    .invoke ⟨.special, "java.lang.Object", "<init>", [], none⟩,
    .loadLocal 0,
    .new "java.lang.StringBuilder",
    .dup,
    .loadLocal 1,
    .invoke ⟨.special, "java.lang.StringBuilder", "<init>", [.reference "java.lang.String"], none⟩,
    .putField "text",
    .returnVoid]

/-- A null reference is pushed and popped in front of the new object. -/
theorem analyze_discard_tagged :
    tagged.instructions = tagged.instructions.take 3 ++ tagged.instructions.drop 3 ∧
      tagged.instructions.length + 2 ≤ ({} : Options).maxInstructions ∧
      tagged.analyze {} =
        .error (.derivedValue "text" "new java.lang.StringBuilder.<init>(p0)") ∧
      Body.analyze { tagged with
        instructions :=
          tagged.instructions.take 3 ++ .pushNull :: .pop :: tagged.instructions.drop 3 } {} =
          .error (.derivedValue "text" "new java.lang.StringBuilder.<init>(p0)") := by
  have hanalyze : tagged.analyze {} =
      .error (.derivedValue "text" "new java.lang.StringBuilder.<init>(p0)") := by
    cbv
  have hlonger := analyze_discard tagged {} (tagged.instructions.take 3)
    (tagged.instructions.drop 3) .pushNull rfl (by decide) .pushNull (by decide)
  rw [hanalyze] at hlonger
  exact ⟨rfl, by decide, hanalyze, hlonger⟩

end Body

end FieldFlow
