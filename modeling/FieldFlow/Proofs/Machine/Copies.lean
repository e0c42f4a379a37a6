import FieldFlow.Proofs.Machine.Locals
import Mathlib.Algebra.Group.Nat.Defs

/-!
# What copies cost

A copy of a value shares its receivers and operands with the original, but arguments are kept in the
value itself and are copied with it. This is how large such copies become along a run.

## Main Definitions

* `Value.copied`: the nodes that a copy of a value duplicates
* `Machine.passed`: the arguments that instructions pass to methods
* `Machine.recopied`: the nodes that they duplicate beneath the entries they copy

## Main Statements

* `Machine.Visits.copied_le`: a copy duplicates no more than what was passed and recopied before
* `Machine.exists_copied_eq_two_pow`: what was passed alone is no bound, since copies double

## Design Notes

The account is kept for the whole stack: how many nodes are carried by its entries, beyond the
entries themselves. A call makes the entries that it takes into nodes which its result carries, and
a `dup` carries once more what the top carries. No other instruction adds to the account.
-/

namespace FieldFlow

namespace Value

mutual

/-- The number of nodes that a copy of the value duplicates: the value itself and the copies of its
arguments. Receivers, operands and the contents of cells are shared. -/
def copied : Value → Nat
  | methodCall _ _ args => 1 + copiedAll args
  | staticCall _ _ args => 1 + copiedAll args
  | _ => 1

/-- The number of nodes that copies of all the values duplicate. -/
def copiedAll : List Value → Nat
  | [] => 0
  | value :: values => value.copied + copiedAll values

end

/-- The number of nodes that the values carry beneath them when they are copied. -/
def carriedAll (values : List Value) : Nat :=
  values.foldr (fun value total => (value.copied - 1) + total) 0

variable {value : Value} {values more : List Value}

theorem one_le_copied (value : Value) : 1 ≤ value.copied := by
  cases value <;> simp [copied]

/-- A node without operands is copied alone. -/
theorem copied_of_operands (h : value.operands = []) : value.copied = 1 := by
  cases value with
  | methodCall receiver name args => cases h
  | staticCall owner name args =>
    obtain rfl : args = [] := h
    rfl
  | _ => rfl

@[simp]
theorem carriedAll_nil : carriedAll [] = 0 := rfl

@[simp]
theorem carriedAll_cons (value : Value) (values : List Value) :
    carriedAll (value :: values) = (value.copied - 1) + carriedAll values := rfl

@[simp]
theorem carriedAll_append (values more : List Value) :
    carriedAll (values ++ more) = carriedAll values + carriedAll more := by
  induction values with
  | nil => simp
  | cons value values ih => simp [ih, Nat.add_assoc]

@[simp]
theorem carriedAll_reverse (values : List Value) :
    carriedAll values.reverse = carriedAll values := by
  induction values with
  | nil => rfl
  | cons value values ih => simp [ih, Nat.add_comm]

/-- A copy of one of the values duplicates the value and a part of what all of them carry. -/
theorem copied_le_carriedAll (hmem : value ∈ values) : value.copied ≤ 1 + carriedAll values := by
  induction values with
  | nil => cases hmem
  | cons first values ih =>
    rw [carriedAll_cons]
    rcases List.mem_cons.1 hmem with rfl | hmem
    · omega
    · have hrest := ih hmem
      omega

/-- Copies of the values duplicate the values and what they carry. -/
theorem copiedAll_eq (values : List Value) :
    copiedAll values = values.length + carriedAll values := by
  induction values with
  | nil => rfl
  | cons value values ih =>
    have hvalue := value.one_le_copied
    rw [copiedAll, carriedAll_cons, List.length_cons, ih]
    omega

end Value

open Value (carriedAll copiedAll)

namespace State

variable (state : State) (value : Value)

/-- A value that is pushed brings along at most what it carries, and nothing behind a cell. -/
theorem carriedAll_push (isReference : Bool) :
    carriedAll (state.push isReference value).stack ≤
      carriedAll state.stack + (value.copied - 1) := by
  rw [push]
  split
  · show (Value.ref state.cells.size).copied - 1 + carriedAll state.stack ≤ _
    rw [Value.copied_of_operands rfl]
    omega
  · show value.copied - 1 + carriedAll state.stack ≤ _
    omega

@[simp]
theorem stack_recordName (slot : Nat) (name : String) :
    (state.recordName slot name).stack = state.stack := by
  unfold recordName
  split <;> rfl

end State

/-- The number of arguments that the instruction passes to a method. -/
def Instruction.arguments : Instruction → Nat
  | invoke call => call.args.length
  | _ => 0

namespace Machine

variable {context : Context} {instruction : Instruction} {state next last : State}
variable {body : Body} {options : Options} {executed : List Instruction} {value : Value}

/-- The number of arguments that the instructions pass to methods. -/
def passed (executed : List Instruction) : Nat :=
  executed.foldr (fun instruction total => instruction.arguments + total) 0

/-- The number of nodes that the instruction duplicates beneath the entry that it copies. -/
def duplicated (instruction : Instruction) (state : State) : Nat :=
  match instruction, state.stack with
  | .dup, top :: _ => top.copied - 1
  | _, _ => 0

/-- The number of nodes that the instructions duplicate beneath the entries that they copy. -/
def recopied (context : Context) : List Instruction → State → Nat
  | [], _ => 0
  | instruction :: rest, state =>
    duplicated instruction state +
      match advance context instruction state with
      | .ok next => recopied context rest next
      | .error _ => 0

theorem passed_cons (instruction : Instruction) (executed : List Instruction) :
    passed (instruction :: executed) = instruction.arguments + passed executed := rfl

theorem passed_append (executed more : List Instruction) :
    passed (executed ++ more) = passed executed + passed more := by
  induction executed with
  | nil => exact (Nat.zero_add _).symm
  | cons instruction rest ih => rw [List.cons_append, passed_cons, passed_cons, ih, Nat.add_assoc]

theorem recopied_cons (h : advance context instruction state = .ok next)
    (rest : List Instruction) :
    recopied context (instruction :: rest) state =
      duplicated instruction state + recopied context rest next := by
  rw [recopied, h]

theorem recopied_append (h : execute context executed state = .ok next)
    (more : List Instruction) :
    recopied context (executed ++ more) state =
      recopied context executed state + recopied context more next := by
  induction executed generalizing state with
  | nil =>
    cases h
    rw [List.nil_append, recopied, Nat.zero_add]
  | cons instruction rest ih =>
    obtain ⟨middle, hmiddle, h⟩ := bind_eq_ok.1 h
    rw [List.cons_append, recopied_cons hmiddle, recopied_cons hmiddle, ih h, Nat.add_assoc]

/-! ### One instruction -/

theorem carriedAll_leave (returns : Option Kind) (result : Value) (state : State) :
    carriedAll (leave returns result state).stack ≤
      carriedAll state.stack + (result.copied - 1) := by
  cases returns with
  | none => exact Nat.le_add_right _ _
  | some kind => exact state.carriedAll_push result kind.isReference

/-- The result of a call carries its arguments and what they carried before. -/
theorem carriedAll_call {call : Call} {args : List Value} {result : Value} {popped : State}
    (hresult : result.copied ≤ 1 + copiedAll args) (count : args.length = call.args.length)
    (htaken : carriedAll args + carriedAll popped.stack ≤ carriedAll state.stack) :
    carriedAll (leave call.returns result popped).stack ≤
      carriedAll state.stack + Instruction.arguments (.invoke call) := by
  have hleave := carriedAll_leave call.returns result popped
  rw [Value.copiedAll_eq, count] at hresult
  rw [Instruction.arguments]
  omega

theorem account_of_le (h : carriedAll next.stack ≤ carriedAll state.stack) :
    carriedAll next.stack ≤
      carriedAll state.stack + instruction.arguments + duplicated instruction state := by
  omega

/-- **What an instruction adds to the account**: the arguments that it passes, and what it
duplicates beneath the entry that it copies. -/
theorem Transition.carriedAll_le (h : Transition context state instruction next)
    (hslots : ∀ value ∈ state.locals, value.operands = []) :
    carriedAll next.stack ≤
      carriedAll state.stack + instruction.arguments + duplicated instruction state := by
  cases h with
  | dup taken =>
    simp only [State.pushLiteral, duplicated, taken, Value.carriedAll_cons]
    omega
  | pushNull | pushInt _ | new _ | loadCell _ =>
    apply account_of_le
    simp [State.pushLiteral, State.alloc, Value.copied]
  | loadValue held direct =>
    have hvalue := Value.copied_of_operands (hslots _ (Array.mem_of_getElem? held))
    apply account_of_le
    simp [State.pushLiteral, hvalue]
  | pushConst constant =>
    exact account_of_le (state.carriedAll_push (.constant constant) constant.isReference)
  | getStatic owner name kind =>
    exact account_of_le (state.carriedAll_push (.staticField owner name) kind.isReference)
  | getField name kind taken =>
    -- The receiver is shared.
    apply account_of_le
    refine Nat.le_trans (State.carriedAll_push _ _ _) ?_
    simp [taken, Value.copied]
  | binaryOp operator taken =>
    -- The operands are shared.
    apply account_of_le
    simp only [State.pushLiteral, taken, Value.carriedAll_cons, Value.copied]
    omega
  | pop taken | pop2 taken | store taken _ _ | ignore taken _ | superCall _ _ taken =>
    apply account_of_le
    simp only [taken, Value.carriedAll_cons]
    omega
  | staticCall notSuper notSelf static count taken =>
    refine Nat.le_add_right_of_le (carriedAll_call (Nat.le_refl _) count ?_)
    simp [taken]
  | cellCall notSuper notSelf static count taken =>
    refine Nat.le_add_right_of_le (carriedAll_call (Nat.le_add_right _ _) count ?_)
    simp [taken, State.rebind, Value.copied]
  | valueCall notSuper notSelf static count direct taken =>
    refine Nat.le_add_right_of_le (carriedAll_call (Nat.le_refl _) count ?_)
    simp [taken]
  | localName slot name =>
    apply account_of_le
    simp
  | returnVoid done => exact account_of_le (Nat.le_refl _)

/-! ### Runs -/

/-- No local slot carries anything. -/
theorem Visits.operands_of_mem_locals (h : Visits body options executed state)
    (hmem : value ∈ state.locals) : value.operands = [] := by
  have hinitial : (State.initial body.parameters).Each fun value => value.operands = [] :=
    State.each_initial rfl (fun _ _ => rfl) fun _ _ => rfl
  rw [h.locals_eq] at hmem
  exact hinitial value (.slot hmem)

/-- All that the entries of a state carry was passed or recopied before. -/
theorem Visits.carriedAll_le (h : Visits body options executed state) :
    carriedAll state.stack ≤
      passed executed + recopied (.of body options) executed (.initial body.parameters) := by
  refine Visits.induction (P := fun executed state => carriedAll state.stack ≤
    passed executed + recopied (.of body options) executed (.initial body.parameters)) ?_ ?_ h
  · exact Nat.zero_le _
  · intro executed instruction state next hvisits hnext htransition ih
    have hstep := htransition.carriedAll_le fun value => hvisits.operands_of_mem_locals
    have hpassed : passed [instruction] = instruction.arguments := rfl
    rw [passed_append, hpassed, recopied_append hvisits.reached,
      recopied_cons (advance_eq_ok_iff.2 htransition), recopied]
    omega

/-- **What a copy of an entry costs.** A copy duplicates the entry, and beneath it no more nodes
than arguments were passed to methods before and nodes were duplicated beneath the entries that
were copied. -/
theorem Visits.copied_le (h : Visits body options executed state) (hmem : value ∈ state.stack) :
    value.copied ≤ 1 + passed executed +
      recopied (.of body options) executed (.initial body.parameters) := by
  have hvalue := Value.copied_le_carriedAll hmem
  have hstack := h.carriedAll_le
  omega

/-! ### Copies that double -/

/-- The call of a method that takes the greater one of two numbers. -/
def maxCall : Call := ⟨.static, "Math", "max", [.int, .int], some .int⟩

/-- The greater one of a number and itself. -/
def maxWithItself (value : Value) : Value :=
  .staticCall "Math" "max" [value, value]

/-- Takes the greater one of the top and itself, and of the result and itself, and so on. -/
def doublings : Nat → List Instruction
  | 0 => []
  | count + 1 => doublings count ++ [.dup, .invoke maxCall]

/-- What `doublings` leaves in the place of a number. -/
def doubled (value : Value) : Nat → Value
  | 0 => value
  | count + 1 => maxWithItself (doubled value count)

theorem passed_doublings (count : Nat) : passed (doublings count) = 2 * count := by
  induction count with
  | zero => rfl
  | succ count ih => rw [doublings, passed_append, ih]; rfl

theorem length_doublings (count : Nat) : (doublings count).length = 2 * count := by
  induction count with
  | zero => rfl
  | succ count ih => rw [doublings, List.length_append, ih]; rfl

theorem ne_returnVoid_of_mem_doublings {count : Nat} (hmem : instruction ∈ doublings count) :
    instruction ≠ .returnVoid := by
  induction count with
  | zero => cases hmem
  | succ count ih =>
    rcases List.mem_append.1 hmem with hmem | hmem
    · exact ih hmem
    · rintro rfl
      simp at hmem

/-- Every call makes two copies of its operand into one value. -/
theorem copied_doubled (value : Value) (count : Nat) :
    (doubled value count).copied + 1 = (value.copied + 1) * 2 ^ count := by
  induction count with
  | zero => simp [doubled]
  | succ count ih =>
    rw [Nat.pow_succ, ← Nat.mul_assoc, ← ih, doubled, maxWithItself]
    simp only [Value.copied, Value.copiedAll]
    omega

theorem execute_doublings {rest : List Value} (hname : context.initializer ≠ "max")
    (hstack : state.stack = value :: rest) (count : Nat) :
    execute context (doublings count) state =
      .ok { state with stack := doubled value count :: rest } := by
  have hother : ∀ owner, ¬ Delegates context maxCall owner := fun _ h => hname h.1.symm
  induction count with
  | zero =>
    rw [doubled, ← hstack]
    rfl
  | succ count ih =>
    have hdup : Transition context { state with stack := doubled value count :: rest } .dup
        { state with stack := doubled value count :: doubled value count :: rest } := .dup rfl
    have hcall : Transition context
        { state with stack := doubled value count :: doubled value count :: rest }
        (.invoke maxCall) { state with stack := doubled value (count + 1) :: rest } :=
      @Transition.staticCall _ _ maxCall [doubled value count, doubled value count] rest
        (hother _) (hother _) rfl rfl rfl
    exact execute_trans ih (hdup.execute_cons hcall.execute)

/-- **Copies can double with every call.** With two arguments for each call, the nodes that a copy
of an entry duplicates are as many as two to the power of the number of calls. -/
theorem exists_copied_eq_two_pow (count : Nat) :
    ∃ body options executed state value, Visits body options executed state ∧
      value ∈ state.stack ∧ passed executed = 2 * count ∧ value.copied + 1 = 2 ^ (count + 1) := by
  let code : List Instruction := .pushInt 1 :: doublings count
  let body : Body := ⟨"Page", "java.lang.Object", [], code⟩
  let options : Options := { maxInstructions := 2 * count + 1 }
  have hpush : Transition (.of body options) (.initial []) (.pushInt 1)
      ((State.initial []).pushLiteral (.int 1)) := .pushInt 1
  have hreached := hpush.execute_cons
    (execute_doublings (show initializerName ≠ "max" by decide) rfl count)
  refine ⟨body, options, code, _, doubled (.int 1) count, ⟨?_, List.prefix_rfl, ?_, hreached⟩,
    List.mem_cons_self, ?_, ?_⟩
  · exact Nat.le_of_eq (congrArg (· + 1) (length_doublings count))
  · intro instruction hmem
    rcases List.mem_cons.1 (List.dropLast_subset _ hmem) with rfl | hmem
    · nofun
    · exact ne_returnVoid_of_mem_doublings hmem
  · rw [passed_cons, passed_doublings]
    exact Nat.zero_add _
  · rw [copied_doubled, Nat.pow_succ, Nat.mul_comm]
    rfl

/-- A constructor that stores what two such calls make of a number. -/
def limitRaised : Body where
  declaringClass := "Page"
  superclass := "java.lang.Object"
  parameters := []
  instructions := [
    .loadLocal 0,
    .invoke ⟨.special, "java.lang.Object", "<init>", [], none⟩,
    .loadLocal 0,
    .pushInt 1,
    .dup,
    .invoke maxCall,
    .dup,
    .invoke maxCall,
    .putField "limit",
    .returnVoid]

/-- The state right before the store. -/
def limitRaisedState : State where
  cells := ⟨#[]⟩
  parameters := []
  locals := #[.this]
  stack := [doubled (.int 1) 2, .this]
  assignments := []
  names := #[]

theorem visits_limitRaised :
    Visits limitRaised {} (limitRaised.instructions.take 8) limitRaisedState := by
  refine ⟨by decide, List.take_prefix _ _, by decide, ?_⟩
  with_unfolding_all rfl

/-- Before the store, four arguments were passed and two nodes were copied beneath the top. A copy
of the value duplicates as many nodes as that allows. -/
theorem copied_le_limitRaised :
    Visits limitRaised {} (limitRaised.instructions.take 8) limitRaisedState ∧
      doubled (.int 1) 2 ∈ limitRaisedState.stack ∧ (doubled (.int 1) 2).copied ≤ 1 + 4 + 2 :=
  ⟨visits_limitRaised, List.mem_cons_self, visits_limitRaised.copied_le List.mem_cons_self⟩

/-- What was passed alone does not allow for the copy of that value. -/
theorem not_copied_le_passed_limitRaised :
    Visits limitRaised {} (limitRaised.instructions.take 8) limitRaisedState ∧
      doubled (.int 1) 2 ∈ limitRaisedState.stack ∧
      passed (limitRaised.instructions.take 8) = 4 ∧
      ¬ (doubled (.int 1) 2).copied ≤ 1 + passed (limitRaised.instructions.take 8) :=
  ⟨visits_limitRaised, List.mem_cons_self, rfl, by decide⟩

end Machine

end FieldFlow
