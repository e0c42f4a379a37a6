import FieldFlow.Analysis
import FieldFlow.Proofs.Machine.Invariants
import FieldFlow.Proofs.State.Names

/-!
# Debug names of a run

Which names an accepted constructor gives to its parameters, and that nothing else depends on them.

## Main Definitions

* `lastName?`: the last debug name that instructions give to a slot
* `State.Recorded`: the names in a state are the last ones that were given
* `Body.Unnamed`: a slot at which no parameter begins

## Main Statements

* `Machine.Transition.withNames`, `Machine.execute_filter_isLocalName`: debug names change nothing
  but the names in a state
* `Machine.Visits.recorded`: the last name that is given to a parameter is kept
* `Body.parameterNames_of_analyze`: the names of an accepted constructor

## Design Notes

No instruction reads a name, so a run can be repeated from a state with any other names. The run of
a constructor without its debug names goes through the same states, up to the names.
-/

namespace FieldFlow

namespace Instruction

/-- Whether the instruction is a debug name. -/
def isLocalName : Instruction → Bool
  | .localName _ _ => true
  | _ => false

/-- The debug name that the instruction gives to a slot. -/
def debugName? (slot : Nat) : Instruction → Option String
  | .localName named name => if named.toNat = slot then some name else none
  | _ => none

theorem debugName?_eq_some_iff {instruction : Instruction} {slot : Nat} {name : String} :
    instruction.debugName? slot = some name ↔
      ∃ named, instruction = .localName named name ∧ named.toNat = slot := by
  cases instruction with
  | localName named given =>
    simp only [debugName?, Option.ite_none_right_eq_some, Option.some.injEq, localName.injEq]
    constructor
    · rintro ⟨hslot, rfl⟩
      exact ⟨named, ⟨rfl, rfl⟩, hslot⟩
    · rintro ⟨_, ⟨rfl, rfl⟩, hslot⟩
      exact ⟨hslot, rfl⟩
  | _ => simp [debugName?]

end Instruction

/-- The last debug name that the instructions give to a slot. -/
def lastName? (slot : Nat) (instructions : List Instruction) : Option String :=
  instructions.reverse.findSome? (·.debugName? slot)

theorem lastName?_concat (slot : Nat) (instructions : List Instruction)
    (instruction : Instruction) : lastName? slot (instructions ++ [instruction]) =
      (instruction.debugName? slot).or (lastName? slot instructions) := by
  rw [lastName?, List.reverse_concat, List.findSome?_cons]
  cases instruction.debugName? slot <;> rfl

/-- The last name of a slot comes from an instruction behind which no other names the slot. -/
theorem lastName?_eq_some_iff {slot : Nat} {instructions : List Instruction} {name : String} :
    lastName? slot instructions = some name ↔
      ∃ before named after, instructions = before ++ .localName named name :: after ∧
        named.toNat = slot ∧
        ∀ later given, .localName later given ∈ after → later.toNat ≠ slot := by
  rw [lastName?, List.findSome?_eq_some_iff]
  constructor
  · rintro ⟨after, instruction, before, hsplit, hgiven, hnone⟩
    obtain ⟨named, rfl, hslot⟩ := Instruction.debugName?_eq_some_iff.1 hgiven
    refine ⟨before.reverse, named, after.reverse, ?_, hslot, ?_⟩
    · rw [← List.reverse_inj, hsplit]
      simp
    · intro later given hmem hlater
      have hgiven := hnone _ (List.mem_reverse.1 hmem)
      rw [Instruction.debugName?_eq_some_iff.2 ⟨later, rfl, hlater⟩] at hgiven
      cases hgiven
  · rintro ⟨before, named, after, rfl, hslot, hlast⟩
    refine ⟨after.reverse, .localName named name, before.reverse, by simp, ?_, ?_⟩
    · exact Instruction.debugName?_eq_some_iff.2 ⟨named, rfl, hslot⟩
    · intro instruction hmem
      rw [Option.eq_none_iff_forall_ne_some]
      intro given hgiven
      obtain ⟨later, rfl, hlater⟩ := Instruction.debugName?_eq_some_iff.1 hgiven
      exact hlast later given (List.mem_reverse.1 hmem) hlater

/-- A slot has a last name if it has a name at all. -/
theorem exists_lastName?_iff {slot : Nat} {instructions : List Instruction} :
    (∃ name, lastName? slot instructions = some name) ↔
      ∃ named name, .localName named name ∈ instructions ∧ named.toNat = slot := by
  rw [← Option.isSome_iff_exists, lastName?, List.findSome?_isSome_iff]
  constructor
  · rintro ⟨instruction, hmem, hgiven⟩
    obtain ⟨name, hgiven⟩ := Option.isSome_iff_exists.1 hgiven
    obtain ⟨named, rfl, hslot⟩ := Instruction.debugName?_eq_some_iff.1 hgiven
    exact ⟨named, name, List.mem_reverse.1 hmem, hslot⟩
  · rintro ⟨named, name, hmem, hslot⟩
    refine ⟨_, List.mem_reverse.2 hmem, ?_⟩
    rw [Instruction.debugName?_eq_some_iff.2 ⟨named, rfl, hslot⟩]
    rfl

namespace State

variable (state : State) (names : Array (Option String)) (value : Value)

@[simp]
theorem parameters_push (isReference : Bool) :
    (state.push isReference value).parameters = state.parameters := by
  unfold push
  split <;> rfl

@[simp]
theorem parameters_recordName (slot : Nat) (name : String) :
    (state.recordName slot name).parameters = state.parameters := by
  unfold recordName
  split <;> rfl

@[simp]
theorem parameters_leave (returns : Option Kind) :
    (Machine.leave returns value state).parameters = state.parameters := by
  cases returns with
  | none => rfl
  | some kind => exact parameters_push state value kind.isReference

/-- The state with other debug names. -/
def withNames : State :=
  { state with names }

theorem push_withNames (isReference : Bool) :
    (state.withNames names).push isReference value =
      (state.push isReference value).withNames names := by
  rw [push, push]
  split <;> rfl

theorem leave_withNames (returns : Option Kind) :
    Machine.leave returns value (state.withNames names) =
      (Machine.leave returns value state).withNames names := by
  cases returns with
  | none => rfl
  | some kind => exact push_withNames state names value kind.isReference

theorem recordName_withNames (slot : Nat) (name : String) :
    (state.recordName slot name).withNames names = state.withNames names := by
  rw [recordName]
  split <;> rfl

end State

namespace Machine

variable {context : Context} {instruction : Instruction} {state next last : State}
variable {body : Body} {options : Options} {executed : List Instruction}

theorem Transition.withNames (h : Transition context state instruction next)
    (hother : instruction.isLocalName = false) (names : Array (Option String)) :
    Transition context (state.withNames names) instruction (next.withNames names) := by
  cases h with
  | pushNull => exact .pushNull
  | pushInt value => exact .pushInt value
  | pushConst constant =>
    rw [← State.push_withNames]
    exact .pushConst constant
  | pop taken => exact .pop taken
  | pop2 taken => exact .pop2 taken
  | dup taken => exact .dup taken
  | binaryOp operator taken => exact .binaryOp operator taken
  | loadCell held => exact .loadCell held
  | loadValue held direct => exact .loadValue held direct
  | getStatic owner name kind =>
    rw [← State.push_withNames]
    exact .getStatic owner name kind
  | @getField name kind receiver rest taken =>
    rw [← State.push_withNames]
    exact .getField name kind taken
  | store taken own fresh => exact .store taken own fresh
  | ignore taken foreign => exact .ignore taken foreign
  | superCall delegates noArgs taken => exact .superCall delegates noArgs taken
  | staticCall notSuper notSelf static count taken =>
    rw [← State.leave_withNames]
    exact .staticCall notSuper notSelf static count taken
  | cellCall notSuper notSelf static count taken =>
    rw [← State.leave_withNames]
    exact .cellCall notSuper notSelf static count taken
  | valueCall notSuper notSelf static count direct taken =>
    rw [← State.leave_withNames]
    exact .valueCall notSuper notSelf static count direct taken
  | new className => exact .new className
  | localName slot name => cases hother
  | returnVoid done => exact .returnVoid done

/-- **Debug names are inert.** -/
theorem execute_filter_isLocalName (h : execute context executed state = .ok last)
    (names : Array (Option String)) :
    execute context (executed.filter (!·.isLocalName)) (state.withNames names) =
      .ok (last.withNames names) := by
  induction executed generalizing state with
  | nil =>
    cases h
    rfl
  | cons instruction rest ih =>
    obtain ⟨next, hnext, h⟩ := bind_eq_ok.1 h
    have htransition := advance_eq_ok_iff.1 hnext
    cases hname : instruction.isLocalName with
    | true =>
      rw [List.filter_cons_of_neg (by simp [hname])]
      cases htransition with
      | localName slot name =>
        rw [← State.recordName_withNames state names slot.toNat name]
        exact ih h
      | _ => cases hname
    | false =>
      rw [List.filter_cons_of_pos (by simp [hname])]
      exact (htransition.withNames hname names).execute_cons (ih h)

/-- The instruction leaves the names alone if it gives none. -/
theorem Transition.names_eq (h : Transition context state instruction next)
    (hother : instruction.isLocalName = false) : next.names = state.names := by
  have hsame := advance_of_transition (h.withNames hother state.names)
  -- The state with its own names is the state itself.
  rw [show state.withNames state.names = state from rfl, advance_of_transition h] at hsame
  rw [Except.ok.inj hsame]
  rfl

theorem Transition.parameters (h : Transition context state instruction next) :
    next.parameters = state.parameters := by
  cases h with
  | pushConst _ | getStatic _ _ _ | getField _ _ _ => exact State.parameters_push _ _ _
  | staticCall _ _ _ _ _ | cellCall _ _ _ _ _ | valueCall _ _ _ _ _ _ =>
    exact State.parameters_leave _ _ _
  | localName slot name => exact State.parameters_recordName _ _ _
  | _ => rfl

end Machine

/-! ### Names of parameters -/

/-- The names in a state are the last ones that the instructions give to the first slots of the
parameters. -/
structure State.Recorded (parameters : List Kind) (executed : List Instruction)
    (state : State) : Prop where
  declared : state.parameters = parameters
  size : state.names.size = parameters.length
  last : ∀ index < parameters.length,
    state.names[index]? = some (lastName? (Body.slotBefore parameters index) executed)

namespace State.Recorded

variable {parameters : List Kind} {executed : List Instruction} {state next : State}
variable {names : List String}

/-- Before the first instruction, no name is recorded. -/
theorem initial (parameters : List Kind) : Recorded parameters [] (.initial parameters) where
  declared := rfl
  size := Array.size_replicate
  last := by
    intro index hindex
    show (Array.replicate parameters.length none)[index]? = _
    rw [Array.getElem?_replicate, if_pos hindex]
    rfl

/-- A debug name is kept until the next one for the same slot. -/
theorem recordName (h : Recorded parameters executed state) (slot : UInt16) (name : String) :
    Recorded parameters (executed ++ [.localName slot name])
      (state.recordName slot.toNat name) where
  declared := (state.parameters_recordName slot.toNat name).trans h.declared
  size := by
    rw [State.recordName]
    split
    · exact h.size
    · exact Array.size_setIfInBounds.trans h.size
  last := by
    intro index hindex
    rw [lastName?_concat, Instruction.debugName?]
    split
    next hslot =>
      have hparameter : index < state.parameters.length := h.declared ▸ hindex
      rw [hslot, ← h.declared, recordName_slotBefore hparameter,
        Array.getElem?_setIfInBounds_self_of_lt (h.size ▸ hindex)]
      rfl
    next hother =>
      rw [← h.declared] at hother
      rw [getElem?_names_recordName_of_ne hother, h.last index hindex]
      rfl

/-- **One instruction records a name for its slot, or none.** -/
theorem transition {context : Machine.Context} {instruction : Instruction}
    (h : Recorded parameters executed state)
    (htransition : Machine.Transition context state instruction next) :
    Recorded parameters (executed ++ [instruction]) next := by
  cases hname : instruction.isLocalName with
  | true =>
    cases htransition with
    | localName slot name => exact h.recordName slot name
    | _ => cases hname
  | false =>
    have hnames := htransition.names_eq hname
    refine ⟨htransition.parameters.trans h.declared, hnames ▸ h.size, ?_⟩
    intro index hindex
    have hnone : instruction.debugName? (Body.slotBefore parameters index) = none := by
      cases instruction <;> first | rfl | cases hname
    rw [hnames, lastName?_concat, hnone, h.last index hindex]
    rfl

/-- **The parameters have names if there are parameters and each has been given one.** -/
theorem exists_parameterNames_iff (h : Recorded parameters executed state) :
    (∃ names, state.parameterNames = some names) ↔
      parameters ≠ [] ∧ ∀ index < parameters.length,
        ∃ slot name, .localName slot name ∈ executed ∧
          slot.toNat = Body.slotBefore parameters index := by
  have hnonempty : state.names ≠ #[] ↔ parameters ≠ [] := by
    rw [ne_eq, ← Array.size_eq_zero_iff, h.size, List.length_eq_zero_iff]
  rw [State.exists_parameterNames_iff, hnonempty]
  refine and_congr_right fun _ => ?_
  simp only [← exists_lastName?_iff]
  constructor
  · intro hnames index hindex
    obtain ⟨name, hname⟩ := hnames _ (Array.mem_of_getElem? (h.last index hindex))
    exact ⟨name, hname.symm⟩
  · intro hgiven entry hmem
    obtain ⟨index, hentry⟩ := Array.getElem?_of_mem hmem
    obtain ⟨hindex, -⟩ := Array.getElem?_eq_some_iff.1 hentry
    rw [h.size] at hindex
    obtain ⟨name, hname⟩ := hgiven index hindex
    rw [h.last index hindex, hname] at hentry
    exact ⟨name, Option.some.inj hentry⟩

/-- **The name of a parameter is the last one that it has been given.** -/
theorem lastName?_eq (h : Recorded parameters executed state)
    (hnames : state.parameterNames = some names) : names.length = parameters.length ∧
      ∀ index name, names[index]? = some name →
        lastName? (Body.slotBefore parameters index) executed = some name := by
  obtain ⟨-, hentries⟩ := parameterNames_eq_some_iff.1 hnames
  have hlength : names.length = parameters.length := by
    rw [← h.size, ← Array.length_toList, hentries, List.length_map]
  refine ⟨hlength, ?_⟩
  intro index name hname
  obtain ⟨hindex, -⟩ := List.getElem?_eq_some_iff.1 hname
  have hlast := h.last index (hlength ▸ hindex)
  rw [← Array.getElem?_toList, hentries, List.getElem?_map, hname] at hlast
  exact (Option.some.inj hlast).symm

end State.Recorded

/-- **A run keeps the last name that is given to each parameter.** -/
theorem Machine.Visits.recorded {body : Body} {options : Options} {executed : List Instruction}
    {state : State} (h : Visits body options executed state) :
    state.Recorded body.parameters executed := by
  refine Visits.induction (P := fun executed state => state.Recorded body.parameters executed)
    (.initial body.parameters) ?_ h
  intro executed instruction state next _ _ htransition hrecorded
  exact hrecorded.transition htransition

/-! ### Accepted constructors -/

namespace Body

variable {parameters : List Kind} {body : Body} {options : Options} {analysis : Analysis}
variable {slot index : Nat} {state last : State}

/-- No parameter begins at the slot: it is the one of the object under construction, the second of a
wide parameter, or beyond all parameters. -/
inductive Unnamed (parameters : List Kind) : Nat → Prop
  | this : Unnamed parameters 0
  | upper {index : Nat} {kind : Kind} (declared : parameters[index]? = some kind)
      (wide : kind.isWide = true) : Unnamed parameters (slotBefore parameters index + 1)
  | past {slot : Nat} (le : 1 + Kind.totalWidth parameters ≤ slot) : Unnamed parameters slot

theorem Unnamed.ne_slotBefore (h : Unnamed parameters slot) (hindex : index < parameters.length) :
    slot ≠ slotBefore parameters index := by
  have hfirst : Occupies parameters index parameters[index] (slotBefore parameters index) :=
    (occupies_iff (List.getElem?_eq_getElem hindex)).2 (.inl rfl)
  rintro rfl
  generalize hslot : slotBefore parameters index = slot at h
  cases h with
  | this =>
    rw [slotBefore] at hslot
    omega
  | upper declared wide =>
    -- The slot is one of the wide parameter, which begins before it.
    have hupper := (occupies_iff declared).2 (.inr ⟨wide, hslot⟩)
    rw [hfirst.unique hupper] at hslot
    omega
  | past le =>
    have hlt := hfirst.lt_size
    omega

/-- A debug name for a slot at which no parameter begins has no effect. -/
theorem Unnamed.recordName_eq (h : Unnamed state.parameters slot) (name : String) :
    state.recordName slot name = state :=
  State.recordName_of_ne (fun _ hindex => h.ne_slotBefore hindex) name

theorem analyze_eq_ok_iff : body.analyze options = .ok analysis ↔
    ∃ state, Machine.run body options = .ok state ∧
      Mapping.ofState state = .ok analysis.mapping ∧
      analysis.parameterNames = state.parameterNames := by
  constructor
  · intro h
    obtain ⟨state, hrun, h⟩ := bind_eq_ok.1 h
    obtain ⟨mapping, hmapping, h⟩ := bind_eq_ok.1 h
    cases h
    exact ⟨state, hrun, hmapping, rfl⟩
  · rintro ⟨state, hrun, hmapping, hnames⟩
    refine bind_eq_ok.2 ⟨state, hrun, bind_eq_ok.2 ⟨_, hmapping, ?_⟩⟩
    rw [← hnames]
    rfl

/-- The constructor without its debug names. -/
def withoutNames (body : Body) : Body :=
  { body with instructions := body.instructions.filter (!·.isLocalName) }

/-- The run without debug names ends in the same state, in which no name is recorded. -/
theorem run_withoutNames (h : Machine.run body options = .ok last) :
    Machine.run body.withoutNames options =
      .ok (last.withNames (State.initial body.parameters).names) := by
  obtain ⟨hlimit, code, hcode, hgoing, hexecute, hdone⟩ := Machine.run_eq_ok_iff.1 h
  refine Machine.run_eq_ok_iff.2 ⟨Nat.le_trans (List.length_filter_le _ _) hlimit,
    code.filter (!·.isLocalName), ?_, ?_, ?_, hdone⟩
  · rw [withoutNames, hcode, List.filter_append]
    rfl
  · intro hmem
    exact hgoing (List.mem_filter.1 hmem).1
  · exact Machine.execute_filter_isLocalName hexecute _

/-- The run without a debug name that has no effect ends in the same state. -/
theorem run_of_unnamed {slot : UInt16} {name : String} {before after : List Instruction}
    (hslot : Unnamed body.parameters slot.toNat)
    (hsplit : body.instructions = before ++ .localName slot name :: after)
    (h : Machine.run body options = .ok last) :
    Machine.run { body with instructions := before ++ after } options = .ok last := by
  obtain ⟨hlimit, code, hcode, hgoing, hexecute, hdone⟩ := Machine.run_eq_ok_iff.1 h
  rw [hsplit] at hcode hlimit
  rcases List.eq_nil_or_concat after with rfl | ⟨after, final, rfl⟩
  · obtain ⟨-, hreturn⟩ := List.append_inj' hcode rfl
    cases hreturn
  · rw [List.concat_eq_append, ← List.cons_append, ← List.append_assoc] at hcode
    obtain ⟨rfl, hreturn⟩ := List.append_inj' hcode rfl
    obtain rfl := List.singleton_inj.1 hreturn
    rw [Machine.execute_append] at hexecute
    obtain ⟨state, hbefore, hafter⟩ := bind_eq_ok.1 hexecute
    obtain ⟨next, hname, hafter⟩ := bind_eq_ok.1 hafter
    -- The state before the name is the one behind it.
    have hvisits : Machine.Visits body options before state := by
      refine ⟨hsplit ▸ hlimit, hsplit ▸ List.prefix_append _ _, ?_, hbefore⟩
      rintro instruction hmem rfl
      exact hgoing (List.mem_append_left _ (List.dropLast_subset _ hmem))
    rw [← hvisits.recorded.declared] at hslot
    cases Machine.advance_eq_ok_iff.1 hname with
    | localName =>
      rw [hslot.recordName_eq] at hafter
      refine Machine.run_eq_ok_iff.2 ⟨?_, before ++ after, ?_, ?_, ?_, hdone⟩
      · simp only [List.length_append, List.length_cons] at hlimit ⊢
        omega
      · simp
      · simp only [List.mem_append, List.mem_cons, not_or] at hgoing ⊢
        exact ⟨hgoing.1, hgoing.2.2⟩
      · exact Machine.execute_trans hbefore hafter

/-- **The names of an accepted constructor.** Its parameters have names if there are parameters and
each has a debug name at its first slot, and then the name of a parameter is its last debug name.
Debug names for other slots have no effect in any state, and none on the analysis. Without any debug
names, the constructor is accepted with the same fields. -/
theorem parameterNames_of_analyze (body : Body) (options : Options) (analysis : Analysis)
    (h : body.analyze options = .ok analysis) :
    ((∃ names, analysis.parameterNames = some names) ↔
      body.parameters ≠ [] ∧ ∀ index < body.parameters.length,
        ∃ slot name, .localName slot name ∈ body.instructions ∧
          slot.toNat = slotBefore body.parameters index) ∧
    (∀ names, analysis.parameterNames = some names →
      names.length = body.parameters.length ∧
      ∀ index name, names[index]? = some name →
        ∃ before slot after, body.instructions = before ++ .localName slot name :: after ∧
          slot.toNat = slotBefore body.parameters index ∧
          ∀ later given, .localName later given ∈ after →
            later.toNat ≠ slotBefore body.parameters index) ∧
    (∀ (slot : UInt16) name, Unnamed body.parameters slot.toNat →
      (∀ executed state, Machine.Visits body options executed state →
        Machine.step (.of body options) (.localName slot name) state = .ok (state, .continued)) ∧
      ∀ before after, body.instructions = before ++ .localName slot name :: after →
        { body with instructions := before ++ after }.analyze options = .ok analysis) ∧
    body.withoutNames.analyze options = .ok { analysis with parameterNames := none } := by
  obtain ⟨last, hrun, hmapping, hnames⟩ := analyze_eq_ok_iff.1 h
  have hrecorded := (Machine.Visits.of_run hrun).recorded
  rw [hnames]
  refine ⟨hrecorded.exists_parameterNames_iff, ?_, ?_, ?_⟩
  · intro names hsome
    obtain ⟨hlength, hlast⟩ := hrecorded.lastName?_eq hsome
    exact ⟨hlength, fun index name hname => lastName?_eq_some_iff.1 (hlast index name hname)⟩
  · intro slot name hslot
    constructor
    · intro executed state hvisits
      rw [← hvisits.recorded.declared] at hslot
      rw [Machine.step, hslot.recordName_eq]
    · intro before after hsplit
      exact analyze_eq_ok_iff.2 ⟨last, run_of_unnamed hslot hsplit hrun, hmapping, hnames⟩
  · refine analyze_eq_ok_iff.2 ⟨_, run_withoutNames hrun, hmapping, ?_⟩
    exact (State.parameterNames_initial body.parameters).symm

/-- A constructor with a wide parameter that has two names, and a debug name in its middle. -/
def period : Body where
  declaringClass := "Period"
  superclass := "java.lang.Object"
  parameters := [.long, .reference "java.lang.String"]
  instructions := [
    .loadLocal 0,
    .invoke ⟨.special, "java.lang.Object", "<init>", [], none⟩,
    .localName 1 "millis",
    .localName 3 "title",
    .loadLocal 0,
    .loadLocal 1,
    .putField "start",
    .localName 2 "upper",
    .localName 1 "start",
    .returnVoid]

theorem parameterNames_of_analyze_period :
    ∃ analysis, period.analyze {} = .ok analysis ∧
      analysis.parameterNames = some ["start", "title"] ∧
      (∃ before slot after, period.instructions = before ++ .localName slot "start" :: after ∧
        slot.toNat = slotBefore period.parameters 0 ∧
        ∀ later given, .localName later given ∈ after →
          later.toNat ≠ slotBefore period.parameters 0) ∧
      Body.analyze { period with
        instructions := period.instructions.take 7 ++ period.instructions.drop 8 } {} =
          .ok analysis ∧
      period.withoutNames.analyze {} = .ok { analysis with parameterNames := none } := by
  have hanalyze : period.analyze {} =
      .ok ⟨⟨Table.empty.insert "start" ⟨0, .long⟩, []⟩, some ["start", "title"]⟩ := by
    with_unfolding_all rfl
  have hupper : Unnamed period.parameters (2 : UInt16).toNat :=
    .upper (show period.parameters[0]? = some .long from rfl) rfl
  obtain ⟨-, hlast, hunnamed, hwithout⟩ := parameterNames_of_analyze period {} _ hanalyze
  refine ⟨_, hanalyze, rfl, (hlast _ rfl).2 0 "start" rfl, ?_, hwithout⟩
  exact (hunnamed 2 "upper" hupper).2 _ _ rfl

end Body

end FieldFlow
