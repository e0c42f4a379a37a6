import FieldFlow.Proofs.Machine.Transition
import Mathlib.Data.List.Induction

/-!
# Runs of the machine

The states that a run goes through, one instruction after another.

## Main Definitions

* `Machine.execute`: a list of instructions, whether or not the body ends after them
* `Machine.Visits`: the run of a body is in a state after some of its instructions

## Main Statements

* `Machine.Visits.of_run`: the final state of a successful run is one that it visits
* `Machine.execute_induction`: what every instruction preserves, every execution preserves
* `Machine.run_eq_ok_iff`: a run succeeds if it comes to a return at its end
* `Machine.Visits.induction`: what passes from each state of a run to the next

## Design Notes

`Machine.runFrom` carries an offset for its error and looks at the outcome of each step. Neither
matters for what a run does to the state, so invariants are stated of `Machine.execute`, which has
only the state to carry.
-/

namespace FieldFlow.Machine

/-- The state after a list of instructions. -/
def execute (context : Context) : List Instruction → State → Except AnalysisError State
  | [], state => .ok state
  | instruction :: rest, state => do
    let next ← advance context instruction state
    execute context rest next

variable {context : Context} {instruction : Instruction} {state next last : State}

theorem execute_cons (context : Context) (instruction : Instruction) (rest : List Instruction)
    (state : State) :
    execute context (instruction :: rest) state =
      advance context instruction state >>= execute context rest := rfl

theorem execute_append (context : Context) (first second : List Instruction) (state : State) :
    execute context (first ++ second) state =
      execute context first state >>= execute context second := by
  induction first generalizing state with
  | nil => rfl
  | cons instruction rest ih =>
    rw [List.cons_append, execute_cons, execute_cons]
    cases advance context instruction state with
    | error error => rfl
    | ok next => exact ih next

/-- One execution after another. -/
theorem execute_trans {first second : List Instruction}
    (h : execute context first state = .ok next) (h' : execute context second next = .ok last) :
    execute context (first ++ second) state = .ok last := by
  rw [execute_append]
  exact bind_eq_ok.2 ⟨next, h, h'⟩

/-- A transition before an execution. -/
theorem Transition.execute_cons {rest : List Instruction}
    (h : Transition context state instruction next) (h' : execute context rest next = .ok last) :
    execute context (instruction :: rest) state = .ok last :=
  bind_eq_ok.2 ⟨next, advance_eq_ok_iff.2 h, h'⟩

/-- A transition is an execution. -/
theorem Transition.execute (h : Transition context state instruction next) :
    execute context [instruction] state = .ok next :=
  h.execute_cons rfl

/-- **What every instruction preserves, every execution preserves.** -/
theorem execute_induction {P : State → Prop}
    (step : ∀ instruction state next, Transition context state instruction next →
      P state → P next)
    {executed : List Instruction} (h : execute context executed state = .ok last)
    (first : P state) : P last := by
  induction executed generalizing state with
  | nil =>
    cases h
    exact first
  | cons instruction rest ih =>
    obtain ⟨next, hnext, h⟩ := bind_eq_ok.1 h
    exact ih h (step instruction state next (advance_eq_ok_iff.1 hnext) first)

/-! ### The return -/

/-- The return is the only instruction with its outcome. -/
theorem outcome_eq_returned_iff {outcome : Outcome}
    (h : step context instruction state = .ok (next, outcome)) :
    outcome = .returned ↔ instruction = .returnVoid := by
  cases instruction with
  | pushNull | pushInt _ | pushConst _ | getStatic _ _ _ | new _ | localName _ _ =>
    cases h
    simp
  | pop | dup | loadLocal _ | getField _ _ | invoke _ =>
    obtain ⟨_, _, h⟩ := bind_eq_ok.1 h
    cases h
    simp
  | pop2 | binaryOp _ =>
    obtain ⟨_, _, h⟩ := bind_eq_ok.1 h
    obtain ⟨_, _, h⟩ := bind_eq_ok.1 h
    cases h
    simp
  | putField field =>
    obtain ⟨_, _, h⟩ := bind_eq_ok.1 h
    obtain ⟨_, _, h⟩ := bind_eq_ok.1 h
    dsimp only at h
    split at h
    next =>
      obtain ⟨_, _, h⟩ := bind_eq_ok.1 h
      cases h
      simp
    next =>
      cases h
      simp
  | returnVoid =>
    rw [step] at h
    split at h
    next =>
      cases h
      simp
    next => cases h
  | other mnemonic => cases h

/-- A run from an offset on executes the first instruction. It goes on unless that is the return,
which has to be the last. -/
theorem runFrom_cons (context : Context) (offset : Nat) (instruction : Instruction)
    (rest : List Instruction) (state : State) :
    runFrom context offset (instruction :: rest) state =
      advance context instruction state >>= fun next =>
        if instruction = .returnVoid then
          if rest.isEmpty then .ok next else .error (.unsupported (.afterReturn offset))
        else runFrom context (offset + 1) rest next := by
  rw [runFrom, advance]
  cases hstep : step context instruction state with
  | error error => rfl
  | ok result =>
    obtain ⟨next, outcome⟩ := result
    have houtcome := outcome_eq_returned_iff hstep
    -- The outcome says whether the instruction was the return.
    show _ = if instruction = .returnVoid then _ else _
    cases outcome with
    | returned => rw [if_pos (houtcome.1 rfl)]
    | _ =>
      have hgoing : instruction ≠ .returnVoid := by
        intro h
        cases houtcome.2 h
      rw [if_neg hgoing]

/-- A successful run executes all of its instructions, and the return among them is the last. -/
theorem execute_of_runFrom {offset : Nat} {instructions : List Instruction}
    (h : runFrom context offset instructions state = .ok last) :
    execute context instructions state = .ok last ∧
      ∀ instruction ∈ instructions.dropLast, instruction ≠ .returnVoid := by
  induction instructions generalizing offset state with
  | nil => cases h
  | cons instruction rest ih =>
    rw [runFrom_cons] at h
    obtain ⟨next, hnext, h⟩ := bind_eq_ok.1 h
    split at h
    next hreturn =>
      split at h
      next hrest =>
        cases h
        obtain rfl := List.isEmpty_iff.1 hrest
        exact ⟨bind_eq_ok.2 ⟨_, hnext, rfl⟩, by simp⟩
      next => cases h
    next hgoing =>
      obtain ⟨hexecute, hrest⟩ := ih h
      refine ⟨bind_eq_ok.2 ⟨_, hnext, hexecute⟩, ?_⟩
      cases rest with
      | nil => cases h
      | cons second rest => simpa using ⟨hgoing, hrest⟩

/-- Instructions without a return that leave nothing on the stack may be followed by the return. -/
theorem runFrom_of_execute {offset : Nat} {instructions : List Instruction}
    (hgoing : .returnVoid ∉ instructions) (h : execute context instructions state = .ok last)
    (hdone : last.stack = []) :
    runFrom context offset (instructions ++ [.returnVoid]) state = .ok last := by
  induction instructions generalizing offset state with
  | nil =>
    cases h
    rw [List.nil_append, runFrom_cons, advance_eq_ok_iff.2 (.returnVoid hdone)]
    rfl
  | cons instruction rest ih =>
    rw [List.mem_cons, not_or] at hgoing
    obtain ⟨next, hnext, h⟩ := bind_eq_ok.1 h
    rw [List.cons_append, runFrom_cons, hnext]
    exact (if_neg (Ne.symm hgoing.1)).trans (ih hgoing.2 h)

/-- What comes before all returns is executed, and the run goes on from there. -/
theorem runFrom_append (context : Context) (offset : Nat) {before : List Instruction}
    (hgoing : .returnVoid ∉ before) (more : List Instruction) (state : State) :
    runFrom context offset (before ++ more) state =
      execute context before state >>= runFrom context (offset + before.length) more := by
  induction before generalizing offset state with
  | nil => rfl
  | cons instruction rest ih =>
    rw [List.mem_cons, not_or] at hgoing
    rw [List.cons_append, runFrom_cons, execute_cons]
    cases advance context instruction state with
    | error error => rfl
    | ok next =>
      refine (if_neg (Ne.symm hgoing.1)).trans ((ih (offset + 1) hgoing.2 next).trans ?_)
      rw [List.length_cons, Nat.add_right_comm, Nat.add_assoc]
      rfl

/-- **A run succeeds if it comes to a return at its end with nothing on the stack.** -/
theorem runFrom_eq_ok_iff {offset : Nat} {instructions : List Instruction} :
    runFrom context offset instructions state = .ok last ↔
      ∃ code, instructions = code ++ [.returnVoid] ∧ .returnVoid ∉ code ∧
        execute context code state = .ok last ∧ last.stack = [] := by
  constructor
  · intro h
    induction instructions generalizing offset state with
    | nil => cases h
    | cons instruction rest ih =>
      rw [runFrom_cons] at h
      obtain ⟨next, hnext, hrun⟩ := bind_eq_ok.1 h
      split at hrun
      next hreturn =>
        split at hrun
        next hrest =>
          cases hrun
          subst hreturn
          cases advance_eq_ok_iff.1 hnext with
          | returnVoid done =>
            obtain rfl := List.isEmpty_iff.1 hrest
            exact ⟨[], rfl, List.not_mem_nil, rfl, done⟩
        next => cases hrun
      next hgoing =>
        obtain ⟨code, rfl, hcode, hexecute, hdone⟩ := ih hrun
        refine ⟨instruction :: code, rfl, ?_, bind_eq_ok.2 ⟨next, hnext, hexecute⟩, hdone⟩
        rw [List.mem_cons, not_or]
        exact ⟨Ne.symm hgoing, hcode⟩
  · rintro ⟨code, rfl, hgoing, hexecute, hdone⟩
    exact runFrom_of_execute hgoing hexecute hdone

theorem run_eq_ok_iff {body : Body} {options : Options} :
    run body options = .ok last ↔ body.instructions.length ≤ options.maxInstructions ∧
      ∃ code, body.instructions = code ++ [.returnVoid] ∧ .returnVoid ∉ code ∧
        execute (.of body options) code (.initial body.parameters) = .ok last ∧
        last.stack = [] := by
  rw [run]
  split
  next hlimit => simp [Nat.not_le.2 hlimit]
  next hlimit => rw [runFrom_eq_ok_iff, and_iff_right (Nat.not_lt.1 hlimit)]

/-! ### The states of a run -/

/-- The run of a body is in a state after the given instructions, which are the first of the body.
A return ends the run, so it can only be the last of them. -/
structure Visits (body : Body) (options : Options) (executed : List Instruction)
    (state : State) : Prop where
  within : body.instructions.length ≤ options.maxInstructions
  first : executed <+: body.instructions
  going : ∀ instruction ∈ executed.dropLast, instruction ≠ .returnVoid
  reached : execute (.of body options) executed (.initial body.parameters) = .ok state

/-- **The final state of a successful run is visited after all instructions.** -/
theorem Visits.of_run {body : Body} {options : Options} (h : run body options = .ok state) :
    Visits body options body.instructions state := by
  rw [run] at h
  split at h
  next => cases h
  next hlimit =>
    obtain ⟨hreached, hgoing⟩ := execute_of_runFrom h
    exact ⟨Nat.not_lt.1 hlimit, List.prefix_rfl, hgoing, hreached⟩

variable {body : Body} {options : Options} {executed more : List Instruction}

/-- From one visited state, the instructions in between lead to a later one. -/
theorem Visits.execute_rest (h : Visits body options executed state)
    (hlater : Visits body options (executed ++ more) last) :
    execute (.of body options) more state = .ok last := by
  have hlast := hlater.reached
  rw [execute_append, h.reached] at hlast
  exact hlast

/-- The state after one more instruction is the next one. -/
theorem Visits.transition (h : Visits body options executed state)
    (hnext : Visits body options (executed ++ [instruction]) next) :
    Transition (.of body options) state instruction next := by
  obtain ⟨later, hlater, hdone⟩ := bind_eq_ok.1 (h.execute_rest hnext)
  cases hdone
  exact advance_eq_ok_iff.1 hlater

/-- Before the last of the instructions, the run is in a state from which that leads on. -/
theorem Visits.exists_before (h : Visits body options (executed ++ [instruction]) next) :
    ∃ state, Visits body options executed state ∧
      Transition (.of body options) state instruction next := by
  have hreached := h.reached
  rw [execute_append] at hreached
  obtain ⟨state, hstate, -⟩ := bind_eq_ok.1 hreached
  have hbefore : Visits body options executed state := by
    refine ⟨h.within, (List.prefix_append _ _).trans h.first, ?_, hstate⟩
    intro earlier hmem
    apply h.going
    rw [List.dropLast_concat]
    exact List.dropLast_subset _ hmem
  exact ⟨state, hbefore, hbefore.transition h⟩

/-- **What holds before the first instruction and passes from each state of a run to the next holds
in all of its states**, together with the instructions that have led there. -/
theorem Visits.induction {P : List Instruction → State → Prop}
    (first : P [] (.initial body.parameters))
    (step : ∀ executed instruction state next, Visits body options executed state →
      Visits body options (executed ++ [instruction]) next →
      Transition (.of body options) state instruction next → P executed state →
      P (executed ++ [instruction]) next)
    (h : Visits body options executed state) : P executed state := by
  induction executed using List.reverseRecOn generalizing state with
  | nil =>
    cases h.reached
    exact first
  | append_singleton executed instruction ih =>
    obtain ⟨before, hbefore, htransition⟩ := h.exists_before
    exact step executed instruction before state hbefore h htransition (ih hbefore)

end FieldFlow.Machine
