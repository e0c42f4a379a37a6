import FieldFlow.Proofs.AliasFree.Unfolding
import FieldFlow.Proofs.Machine.Flow

/-!
# Bodies without duplication

Only duplication puts a second reference to a cell on the stack. In a body without it the cells
cannot be seen: the analysis has the outcome of the evaluation to trees.

## Main Definitions

* `Cells.Apart`: neither of two values is a reference to a cell to which the other leads
* `Machine.Linear`: every cell of the stack belongs to one entry
* `SameOutcome`: equal results, or equal errors up to the text of a value

## Main Statements

* `Machine.Linear.step`: every instruction but duplication keeps a state linear
* `AliasFree.exists_step_of_linear`: in a linear state the values and their trees make the same step
* `sameOutcome_analyze_of_not_dup`: without duplication, the analysis agrees with that on trees

## Design Notes

A reference is copied in a second way: a value on the stack, in a slot or in a cell mentions cells
that were references of the stack when the value was made. Such a cell belongs to no entry any more,
so it is never changed again. This is what keeps the values in step with their trees.
-/

namespace FieldFlow

namespace Cells

/-- Neither value is a reference to a cell to which the other leads. -/
structure Apart (cells : Cells) (value other : Value) : Prop where
  left : ∀ cell, value = .ref cell → ¬ cells.Reaches other (.ref cell)
  right : ∀ cell, other = .ref cell → ¬ cells.Reaches value (.ref cell)

/-- Values with unchanged cells stay apart. -/
theorem Apart.frame {cells later : Cells} {value other : Value} (h : cells.Apart value other)
    (hvalue : cells.AgreeFrom later value) (hother : cells.AgreeFrom later other) :
    later.Apart value other where
  left := by
    intro cell heq
    rw [hother.reaches_iff]
    exact h.left cell heq
  right := by
    intro cell heq
    rw [hvalue.reaches_iff]
    exact h.right cell heq

end Cells

/-! ### Linear states -/

namespace Machine

variable {context : Context} {instruction : Instruction} {state next : State}
variable {body : Body} {options : Options} {executed : List Instruction}
variable {taken made rest : List Value} {changed : CellId} {value : Value} {field : String}

/-- A cell to which an entry of the stack refers is reached from nowhere else. -/
structure Linear (state : State) : Prop where
  entries : state.stack.Pairwise state.cells.Apart
  slots : ∀ held ∈ state.locals, state.Settled held
  assigned : ∀ field value, (field, value) ∈ state.assignments → state.Settled value

theorem linear_initial (parameters : List Kind) : Linear (.initial parameters) where
  entries := .nil
  slots := by
    intro held _ cell hmem
    cases hmem
  assigned := by
    intro field value hmem
    cases hmem

/-- What is assigned after an instruction was assigned before, or is on top of the stack over the
receiver of a store. -/
theorem Transition.mem_assignments (h : Transition context state instruction next)
    (hmem : (field, value) ∈ next.assignments) :
    (field, value) ∈ state.assignments ∨
      ∃ receiver rest, state.stack = value :: receiver :: rest ∧
        next.cells = state.cells ∧ next.stack = rest := by
  cases h with
  | @store field' value' receiver rest taken own fresh =>
    rcases List.mem_append.1 hmem with hmem | hmem
    · exact .inl hmem
    · cases List.mem_singleton.1 hmem
      exact .inr ⟨receiver, rest, taken, rfl, rfl⟩
  | _ =>
    left
    simpa using hmem

namespace Linear

/-- Entries that are left on the stack keep their cells. -/
theorem agreeFrom_rest (h : Linear state) (hstate : state.WellFormed)
    (hflow : Flow state next taken made rest changed) (hmem : value ∈ rest) :
    state.cells.AgreeFrom next.cells value := by
  have hheld : value ∈ state.stack := by
    rw [hflow.before]
    exact List.mem_append_right _ hmem
  have hpairs := h.entries
  rw [hflow.before, List.pairwise_append] at hpairs
  refine hflow.agreeFrom hstate (hstate.mentioned value (.entry hheld)) ?_
  intro hchanged
  exact (hpairs.2.2 _ hchanged value hmem).left changed rfl

/-- An entry that is made is apart from those that are left. -/
theorem apart_made (h : Linear state) (hstate : state.WellFormed)
    (hflow : Flow state next taken made rest changed) {entry : Value} (hentry : entry ∈ made)
    (hmem : value ∈ rest) : next.cells.Apart entry value := by
  have hheld : value ∈ state.stack := by
    rw [hflow.before]
    exact List.mem_append_right _ hmem
  have hscoped := hstate.mentioned value (.entry hheld)
  have hpairs := h.entries
  rw [hflow.before, List.pairwise_append] at hpairs
  have hapart : ∀ origin ∈ taken, state.cells.Apart origin value := fun origin horigin =>
    hpairs.2.2 origin horigin value hmem
  constructor
  · rintro cell rfl
    rw [(h.agreeFrom_rest hstate hflow hmem).reaches_iff]
    rcases hflow.refs cell hentry with rfl | hcell
    · intro hreach
      exact Nat.lt_irrefl _ (Value.scoped_ref.1 (hstate.scoped_of_reaches hscoped hreach))
    · exact (hapart _ hcell).left cell rfl
  · rintro cell rfl
    refine hflow.not_reaches (Value.scoped_ref.1 hscoped) ?_ ?_ (.inl hentry)
    · intro held hslot
      exact h.slots held hslot cell hheld
    · intro origin horigin
      exact (hapart origin horigin).right cell rfl

/-- **Every instruction but duplication keeps a state linear.** -/
theorem step (h : Linear state) (hregular : state.Regular)
    (htransition : Transition context state instruction next) (hdup : instruction ≠ .dup) :
    Linear next := by
  have hstate := hregular.toWellFormed
  obtain ⟨taken, made, rest, changed, hflow, hlength⟩ := htransition.flow hregular
  refine ⟨?_, ?_, ?_⟩
  · rw [hflow.after, List.pairwise_append]
    refine ⟨?_, ?_, ?_⟩
    · -- At most one entry is made.
      match made, hlength hdup with
      | [], _ => exact .nil
      | [entry], _ => exact List.pairwise_singleton _ entry
    · have hpairs := h.entries
      rw [hflow.before, List.pairwise_append] at hpairs
      refine hpairs.2.1.imp_of_mem ?_
      intro value other hvalue hother hapart
      exact hapart.frame (h.agreeFrom_rest hstate hflow hvalue)
        (h.agreeFrom_rest hstate hflow hother)
    · intro entry hentry value hvalue
      exact h.apart_made hstate hflow hentry hvalue
  · intro held hmem
    rw [hflow.locals] at hmem
    exact (hflow.settled hstate (hstate.mentioned held (.slot hmem)) (h.slots held hmem)).2
  · intro field value hmem
    rcases htransition.mem_assignments hmem with hmem | ⟨receiver, rest, hstack, hcells, hrest⟩
    · have hscoped := hstate.mentioned value (.assigned hmem)
      exact (hflow.settled hstate hscoped (h.assigned field value hmem)).2
    · have hpairs := h.entries
      rw [hstack, List.pairwise_cons] at hpairs
      intro cell hcell
      rw [hrest] at hcell
      rw [hcells]
      exact (hpairs.1 _ (.tail _ hcell)).right cell rfl

end Linear

end Machine

/-! ### Values and trees in step -/

namespace AliasFree

open Machine (Context Transition Linear)

variable {context : Context} {instruction : Instruction} {state next : FieldFlow.State}
variable {abstract : State Tree} {value : Value} {tree : Tree} {args rest : List Value}

section Stack

variable {α : Type} {Rel : Cells → Value → α → Prop} {abstract : State α}

/-- Entries may change on both stacks, as long as the cells do not. -/
theorem Simulates.restack {stack : List Value} {entries : List α} (h : Simulates Rel state abstract)
    (hstack : List.Forall₂ (Rel state.cells) stack entries) :
    Simulates Rel { state with stack } { abstract with stack := entries } :=
  { h with stack := hstack }

/-- What is on top of one stack is described by what is on top of the other. -/
theorem Simulates.exists_pop (h : Simulates Rel state abstract)
    (taken : state.stack = value :: rest) :
    ∃ entry entries, abstract.pop = .ok (entry, { abstract with stack := entries }) ∧
      Rel state.cells value entry ∧
      Simulates Rel { state with stack := rest } { abstract with stack := entries } := by
  have hstack := h.stack
  rw [taken, List.forall₂_cons_left_iff] at hstack
  obtain ⟨entry, entries, hvalue, hrest, hright⟩ := hstack
  refine ⟨entry, entries, ?_, hvalue, h.restack hrest⟩
  rw [State.pop, hright]

theorem Simulates.exists_popMany (h : Simulates Rel state abstract)
    (taken : state.stack = args.reverse ++ rest) :
    ∃ entries others,
      abstract.popMany args.length = .ok (entries, { abstract with stack := others }) ∧
        List.Forall₂ (Rel state.cells) args entries ∧
        Simulates Rel { state with stack := rest } { abstract with stack := others } := by
  have hlength : args.reverse.length = args.length := List.length_reverse
  have htop := List.forall₂_take args.length h.stack
  have hrest := List.forall₂_drop args.length h.stack
  rw [taken, List.take_left' hlength] at htop
  rw [taken, List.drop_left' hlength] at hrest
  refine ⟨(abstract.stack.take args.length).reverse, _, ?_, ?_, h.restack hrest⟩
  · rw [State.popMany, if_neg]
    rw [← h.stack.length_eq, taken, List.length_append, hlength]
    exact Nat.not_lt.2 (Nat.le_add_right _ _)
  · rw [← List.forall₂_reverse_iff, List.reverse_reverse]
    exact htop

end Stack

namespace Simulates

/-- Nothing that is there already changes with a new cell. -/
theorem alloc_of_unfolds (h : Simulates Unfolds state abstract) (content : Value) :
    Simulates Unfolds (state.alloc content).2 abstract where
  parameters := h.parameters
  locals := h.locals.imp fun _ _ held => held.frame (held.agreeFrom_alloc content)
  stack := h.stack.imp fun _ _ held => held.frame (held.agreeFrom_alloc content)
  assignments := h.assignments.imp fun _ _ same =>
    ⟨same.1, same.2.frame (same.2.agreeFrom_alloc content)⟩
  names := h.names

theorem pushNew_of_unfolds (h : Simulates Unfolds state abstract)
    (hvalue : Unfolds state.cells value tree) :
    Simulates Unfolds ((state.alloc value).2.pushLiteral (.ref state.cells.size))
      (abstract.push tree) :=
  (h.alloc_of_unfolds value).restack (.cons hvalue.alloc (h.alloc_of_unfolds value).stack)

theorem pushLiteral_of_unfolds (h : Simulates Unfolds state abstract)
    (hvalue : Unfolds state.cells value tree) :
    Simulates Unfolds (state.pushLiteral value) (abstract.push tree) :=
  h.restack (.cons hvalue h.stack)

/-- Whether a value is put behind a cell cannot be seen in its tree. -/
theorem push_of_unfolds (h : Simulates Unfolds state abstract) (isReference : Bool)
    (hvalue : Unfolds state.cells value tree) :
    Simulates Unfolds (state.push isReference value) (abstract.push tree) := by
  rw [FieldFlow.State.push]
  split
  · exact h.pushNew_of_unfolds hvalue
  · exact h.pushLiteral_of_unfolds hvalue

/-- The result of a call is pushed on both stacks, or on none. -/
theorem leave_of_unfolds (h : Simulates Unfolds state abstract) (returns : Option Kind)
    (hvalue : Unfolds state.cells value tree) :
    ∃ after, (match returns with
        | some _ => pure (abstract.push tree)
        | none => pure abstract : Except AnalysisError (State Tree)) = .ok after ∧
      Simulates Unfolds (Machine.leave returns value state) after := by
  cases returns with
  | none => exact ⟨abstract, rfl, h⟩
  | some kind => exact ⟨_, rfl, h.push_of_unfolds kind.isReference hvalue⟩

/-- A call through a reference changes the tree of the reference, and no other in a linear state. -/
theorem rebind_of_unfolds {cell : CellId} {trees : List Tree} (hlinear : Linear state)
    (taken : state.stack = args.reverse ++ .ref cell :: rest)
    (h : Simulates Unfolds { state with stack := rest } abstract)
    (hcell : Unfolds state.cells (.ref cell) tree)
    (hargs : List.Forall₂ (Unfolds state.cells) args trees) (name : String) :
    let called := { state with stack := rest }.rebind cell
      (.methodCall (state.cells.content cell) name args)
    Simulates Unfolds called abstract ∧
      Unfolds called.cells (.ref cell) (.methodCall tree name trees) := by
  have hpairs := hlinear.entries
  rw [taken, List.pairwise_append, List.pairwise_cons] at hpairs
  obtain ⟨-, ⟨hbelow, -⟩, habove⟩ := hpairs
  have hheld : .ref cell ∈ state.stack := by
    rw [taken]
    exact List.mem_append_right _ List.mem_cons_self
  -- Whatever does not lead to the cell stays as it is.
  have hkept : ∀ value tree, ¬ state.cells.Reaches value (.ref cell) ∧
      Unfolds state.cells value tree →
      Unfolds (state.cells.set cell (.methodCall (state.cells.content cell) name args)) value
        tree := by
    rintro value tree ⟨hfree, h⟩
    exact h.frame (Cells.agreeFrom_of_change (fun other hother => Cells.content_set_of_ne hother _)
      hfree)
  have hslots : ∀ held ∈ state.locals.toList, ¬ state.cells.Reaches held (.ref cell) := by
    intro held hmem
    exact hlinear.slots held (Array.mem_toList_iff.1 hmem) cell hheld
  have hassigned : ∀ assigned ∈ state.assignments,
      ¬ state.cells.Reaches assigned.2 (.ref cell) := by
    intro assigned hmem
    exact hlinear.assigned assigned.1 assigned.2 hmem cell hheld
  have hrest : ∀ entry ∈ rest, ¬ state.cells.Reaches entry (.ref cell) := by
    intro entry hmem
    exact (hbelow entry hmem).left cell rfl
  refine ⟨⟨h.parameters, ?_, ?_, ?_, h.names⟩, hcell.rebind name hargs ?_⟩
  · exact ((List.forall₂_and_left _ _).2 ⟨hslots, h.locals⟩).imp hkept
  · exact ((List.forall₂_and_left _ _).2 ⟨hrest, h.stack⟩).imp hkept
  · refine ((List.forall₂_and_left _ _).2 ⟨hassigned, h.assignments⟩).imp ?_
    rintro assigned described ⟨hfree, same⟩
    exact ⟨same.1, hkept _ _ ⟨hfree, same.2⟩⟩
  · intro arg hmem
    exact (habove arg (List.mem_reverse.2 hmem) _ List.mem_cons_self).right cell rfl

end Simulates

/-- A call that does not delegate is a call of a method. -/
theorem invoke_eq_callMethod {call : Call}
    (notSuper : ¬ Machine.Delegates context call context.superclass)
    (notSelf : ¬ Machine.Delegates context call context.declaringClass) :
    invoke trees context call abstract = callMethod trees call abstract := by
  unfold invoke
  exact (if_neg notSuper).trans (if_neg notSelf)

/-- **In a linear state the values and their trees make the same step.** -/
theorem exists_step_of_linear (h : Simulates Unfolds state abstract) (hlinear : Linear state)
    (htransition : Transition context state instruction next) :
    ∃ after, step trees context instruction abstract = .ok after ∧
      Simulates Unfolds next after := by
  cases htransition with
  | pushNull => exact ⟨_, rfl, h.pushNew_of_unfolds (.constant .null)⟩
  | pushInt value => exact ⟨_, rfl, h.pushLiteral_of_unfolds (.int value)⟩
  | pushConst constant => exact ⟨_, rfl, h.push_of_unfolds _ (.constant constant)⟩
  | pop taken =>
    obtain ⟨_, _, hpop, -, h⟩ := h.exists_pop taken
    exact ⟨_, bind_eq_ok.2 ⟨_, hpop, rfl⟩, h⟩
  | pop2 taken =>
    obtain ⟨_, _, hpop, -, h⟩ := h.exists_pop taken
    obtain ⟨_, _, hpop', -, h⟩ := h.exists_pop rfl
    exact ⟨_, bind_eq_ok.2 ⟨_, hpop, bind_eq_ok.2 ⟨_, hpop', rfl⟩⟩, h⟩
  | dup taken =>
    obtain ⟨entry, hpeek, hvalue⟩ :=
      (peek_agree h).exists_of_eq_ok (Machine.peek_eq_ok_iff.2 ⟨_, taken⟩)
    exact ⟨_, bind_eq_ok.2 ⟨_, hpeek, rfl⟩, h.pushLiteral_of_unfolds hvalue⟩
  | binaryOp operator taken =>
    obtain ⟨_, _, hpop, hright, h⟩ := h.exists_pop taken
    obtain ⟨_, _, hpop', hleft, h⟩ := h.exists_pop rfl
    exact ⟨_, bind_eq_ok.2 ⟨_, hpop, bind_eq_ok.2 ⟨_, hpop', rfl⟩⟩,
      h.pushLiteral_of_unfolds (.binaryOp operator hleft hright)⟩
  | @loadCell slot cell held =>
    rcases h.getElem?_locals slot.toNat with ⟨hnone, -⟩ | ⟨value, entry, hleft, hright, hvalue⟩
    · rw [held] at hnone
      cases hnone
    · rw [held] at hleft
      cases hleft
      refine ⟨_, bind_eq_ok.2 ⟨entry, ?_, rfl⟩, h.pushNew_of_unfolds hvalue⟩
      rw [State.load, hright]
  | @loadValue slot value held direct =>
    rcases h.getElem?_locals slot.toNat with ⟨hnone, -⟩ | ⟨value, entry, hleft, hright, hvalue⟩
    · rw [held] at hnone
      cases hnone
    · rw [held] at hleft
      cases hleft
      refine ⟨_, bind_eq_ok.2 ⟨entry, ?_, rfl⟩, h.pushLiteral_of_unfolds hvalue⟩
      rw [State.load, hright]
  | getStatic owner name kind => exact ⟨_, rfl, h.push_of_unfolds _ (.staticField owner name)⟩
  | getField name kind taken =>
    obtain ⟨_, _, hpop, hreceiver, h⟩ := h.exists_pop taken
    have hread := Unfolds.fieldRead name hreceiver.resolve.1
    exact ⟨_, bind_eq_ok.2 ⟨_, hpop, rfl⟩, h.push_of_unfolds kind.isReference hread⟩
  | @store field value receiver rest taken own fresh =>
    obtain ⟨_, _, hpop, hvalue, h⟩ := h.exists_pop taken
    obtain ⟨second, _, hpop', hreceiver, h⟩ := h.exists_pop rfl
    have hown : trees.denotesThis second = true := by
      rw [← trees_abstracts.denotesThis hreceiver.covers]
      exact own
    obtain ⟨after, hassign, h⟩ := (assign_agree h field hvalue).exists_of_eq_ok
      (Machine.assign_eq_ok_iff.2 ⟨fresh, rfl⟩)
    refine ⟨after, bind_eq_ok.2 ⟨_, hpop, bind_eq_ok.2 ⟨_, hpop', ?_⟩⟩, h⟩
    exact (if_pos hown).trans hassign
  | @ignore field value receiver rest taken foreign =>
    obtain ⟨_, _, hpop, hvalue, h⟩ := h.exists_pop taken
    obtain ⟨second, _, hpop', hreceiver, h⟩ := h.exists_pop rfl
    have hforeign : ¬ trees.denotesThis second = true := by
      rw [← trees_abstracts.denotesThis hreceiver.covers, Bool.not_eq_true]
      exact foreign
    refine ⟨_, bind_eq_ok.2 ⟨_, hpop, bind_eq_ok.2 ⟨_, hpop', ?_⟩⟩, h⟩
    exact if_neg hforeign
  | superCall delegates noArgs taken =>
    obtain ⟨_, _, hpop, -, h⟩ := h.exists_pop taken
    refine ⟨_, ?_, h⟩
    rw [step]
    unfold invoke
    refine (if_pos delegates).trans ?_
    rw [noArgs]
    exact bind_eq_ok.2 ⟨_, hpop, rfl⟩
  | @staticCall call args rest notSuper notSelf static count taken =>
    obtain ⟨entries, _, hpop, hargs, h⟩ := h.exists_popMany taken
    obtain ⟨after, hleave, h⟩ :=
      h.leave_of_unfolds call.returns (.callStatic call.owner call.name hargs)
    refine ⟨after, ?_, h⟩
    rw [step, invoke_eq_callMethod notSuper notSelf, callMethod, ← count, static]
    exact bind_eq_ok.2 ⟨_, hpop, hleave⟩
  | @cellCall call args rest cell notSuper notSelf static count taken =>
    obtain ⟨entries, _, hpop, hargs, h⟩ := h.exists_popMany taken
    obtain ⟨entry, _, hpop', hcell, h⟩ := h.exists_pop rfl
    obtain ⟨h, hresult⟩ := h.rebind_of_unfolds hlinear taken hcell hargs call.name
    obtain ⟨after, hleave, h⟩ := h.leave_of_unfolds call.returns hresult
    refine ⟨after, ?_, h⟩
    rw [step, invoke_eq_callMethod notSuper notSelf, callMethod, ← count, static]
    exact bind_eq_ok.2 ⟨_, hpop, bind_eq_ok.2 ⟨_, hpop', hleave⟩⟩
  | @valueCall call args rest receiver notSuper notSelf static count direct taken =>
    obtain ⟨entries, _, hpop, hargs, h⟩ := h.exists_popMany taken
    obtain ⟨entry, _, hpop', hreceiver, h⟩ := h.exists_pop rfl
    obtain ⟨after, hleave, h⟩ :=
      h.leave_of_unfolds call.returns (.call call.name hreceiver hargs)
    refine ⟨after, ?_, h⟩
    rw [step, invoke_eq_callMethod notSuper notSelf, callMethod, ← count, static]
    exact bind_eq_ok.2 ⟨_, hpop, bind_eq_ok.2 ⟨_, hpop', hleave⟩⟩
  | new className => exact ⟨_, rfl, h.pushNew_of_unfolds (.new className)⟩
  | localName slot name => exact ⟨_, rfl, recordName_simulates h slot.toNat name⟩
  | returnVoid done =>
    refine ⟨abstract, if_pos ?_, h⟩
    rw [← h.depth]
    exact List.length_eq_zero_iff.2 done

/-! ### Runs -/

/-- The values and their trees are in step, and every cell of the stack belongs to one entry. -/
structure Unshared (state : FieldFlow.State) (abstract : State Tree) : Prop where
  unfolds : Simulates Unfolds state abstract
  linear : Linear state
  regular : state.Regular

theorem unshared_initial (parameters : List Kind) :
    Unshared (.initial parameters) (.initial trees parameters) := by
  have hslots := FieldFlow.State.slots_initial parameters
  have hcovers := initial_simulates trees_abstracts parameters
  refine ⟨{ hcovers with locals := ?_, stack := .nil, assignments := .nil },
    Machine.linear_initial parameters, FieldFlow.State.regular_initial parameters⟩
  refine ((List.forall₂_and_left _ _).2 ⟨?_, hcovers.locals⟩).imp
    (R := fun value tree => value ∈ (FieldFlow.State.initial parameters).locals.toList ∧
      Covers (FieldFlow.State.initial parameters).cells value tree) ?_
  · exact fun _ hmem => hmem
  · -- A slot has no calls in it that its tree could lack.
    rintro value tree ⟨hmem, hcovers⟩
    rcases hslots.slot value (Array.mem_toList_iff.1 hmem) with
      rfl | ⟨index, kind, rfl⟩ | ⟨cell, hcell, rfl⟩
    · cases hcovers
      exact .this
    · cases hcovers
      exact .parameter index kind
    · obtain ⟨index, kind, hcontent⟩ := hslots.cell cell hcell
      cases hcovers with
      | cell hcovers =>
        rw [hcontent] at hcovers
        cases hcovers
        refine .cell ?_ ?_
        · rw [hcontent]
          rfl
        · rw [hcontent]
          exact .parameter index kind

/-- All instructions but duplication keep values and trees in step, or both machines fail alike. -/
theorem advance_unshared (h : Unshared state abstract) (hdup : instruction ≠ .dup) :
    Agree Unshared (Machine.advance context instruction state)
      (step trees context instruction abstract) := by
  have hcovers : Simulates Covers state abstract :=
    { h.unfolds with
      locals := h.unfolds.locals.imp fun _ _ held => held.covers
      stack := h.unfolds.stack.imp fun _ _ held => held.covers
      assignments := h.unfolds.assignments.imp fun _ _ same => ⟨same.1, same.2.covers⟩ }
  -- Failures are those of the evaluation to trees, whatever is shared.
  have hagree := advance_agree trees_abstracts hcovers context instruction
  cases hadvance : Machine.advance context instruction state with
  | error error =>
    rw [hadvance] at hagree
    generalize step trees context instruction abstract = stepped at hagree
    cases hagree
    exact .error error
  | ok next =>
    have htransition := Machine.advance_eq_ok_iff.1 hadvance
    obtain ⟨after, hstep, hunfolds⟩ := exists_step_of_linear h.unfolds h.linear htransition
    rw [hstep]
    exact .ok ⟨hunfolds, h.linear.step h.regular htransition hdup,
      (htransition.follows h.regular).regular h.regular⟩

theorem runFrom_unshared (context : Context) (offset : Nat) (instructions : List Instruction)
    (hdup : .dup ∉ instructions) (h : Unshared state abstract) :
    Agree Unshared (Machine.runFrom context offset instructions state)
      (runFrom trees context offset instructions abstract) := by
  induction instructions generalizing offset state abstract with
  | nil => exact .error _
  | cons instruction rest ih =>
    rw [List.mem_cons, not_or] at hdup
    rw [Machine.runFrom_cons, runFrom]
    refine (advance_unshared h (Ne.symm hdup.1)).bind ?_
    intro next after h
    split
    · split
      · exact .ok h
      · exact .error _
    · exact ih (offset + 1) hdup.2 h

/-- **Without duplication, values and trees stay in step along a whole body.** -/
theorem run_unshared (body : Body) (options : Options) (hdup : .dup ∉ body.instructions) :
    Agree Unshared (Machine.run body options) (run trees body options) := by
  rw [Machine.run, run]
  split
  · exact .error _
  · exact runFrom_unshared _ 0 body.instructions hdup (unshared_initial body.parameters)

end AliasFree

/-! ### Outcomes -/

/-- Both results are accepted and related, or both are rejected with the same error. The text of a
derived value is left aside. -/
inductive SameOutcome {α β : Type} (Related : α → β → Prop) :
    Except AnalysisError α → Except AnalysisError β → Prop
  | ok {a : α} {b : β} (h : Related a b) : SameOutcome Related (.ok a) (.ok b)
  | derived (field text text' : String) :
      SameOutcome Related (.error (.derivedValue field text)) (.error (.derivedValue field text'))
  | error (error : AnalysisError) : SameOutcome Related (.error error) (.error error)

section Outcomes

variable {α β γ δ : Type} {Related : α → β → Prop} {Later : γ → δ → Prop}

theorem SameOutcome.of_agree {x : Except AnalysisError α} {y : Except AnalysisError β}
    (h : Agree Related x y) : SameOutcome Related x y := by
  cases h with
  | error error => exact .error error
  | ok h => exact .ok h

theorem SameOutcome.bind {x : Except AnalysisError α} {y : Except AnalysisError β}
    {f : α → Except AnalysisError γ} {g : β → Except AnalysisError δ} (h : SameOutcome Related x y)
    (next : ∀ a b, Related a b → SameOutcome Later (f a) (g b)) :
    SameOutcome Later (x >>= f) (y >>= g) := by
  cases h with
  | ok h => exact next _ _ h
  | derived field text text' => exact .derived field text text'
  | error error => exact .error error

/-- One of the two computations may go on with a function of its result. -/
theorem SameOutcome.bind_pure {Later : γ → β → Prop} {x : Except AnalysisError α}
    {y : Except AnalysisError β} {f : α → γ} (h : SameOutcome Related x y)
    (next : ∀ a b, Related a b → Later (f a) b) :
    SameOutcome Later (x >>= fun a => pure (f a)) y := by
  cases h with
  | ok h => exact .ok (next _ _ h)
  | derived field text text' => exact .derived field text text'
  | error error => exact .error error

theorem SameOutcome.exists_of_eq_ok {x : Except AnalysisError α} {y : Except AnalysisError β}
    {b : β} (h : SameOutcome Related x y) (hy : y = .ok b) : ∃ a, x = .ok a ∧ Related a b := by
  subst hy
  cases h with
  | ok h => exact ⟨_, rfl, h⟩

theorem SameOutcome.exists_of_eq_derived {x : Except AnalysisError α} {y : Except AnalysisError β}
    {field text : String} (h : SameOutcome Related x y)
    (hy : y = .error (.derivedValue field text)) :
    ∃ text', x = .error (.derivedValue field text') := by
  subst hy
  cases h with
  | derived field text text' => exact ⟨_, rfl⟩
  | error error => exact ⟨_, rfl⟩

end Outcomes

/-- The verdicts on values and on their trees make the same mapping. -/
theorem sameOutcome_ofAssignments {cells : Cells} {assigned : List (String × Value)}
    {described : List (String × Tree)}
    (h : List.Forall₂ (fun value tree => value.1 = tree.1 ∧ Unfolds cells value.2 tree.2)
      assigned described) :
    SameOutcome (fun mapping plain => mapping.fields = plain.fields)
      (Mapping.ofAssignments cells assigned)
      (Mapping.ofAssignments .empty
        (described.map fun assigned => (assigned.1, assigned.2.toValue))) := by
  induction h with
  | nil => exact .ok rfl
  | @cons value tree assigned described same _ ih =>
    obtain ⟨field, value⟩ := value
    obtain ⟨field, tree⟩ := tree
    obtain ⟨rfl, hunfolds⟩ := same
    rw [List.map_cons, Mapping.ofAssignments, Mapping.ofAssignments, hunfolds.verdict_eq,
      Tree.resolve_toValue]
    dsimp only
    split
    · exact .derived _ _ _
    · refine ih.bind ?_
      intro mapping plain hfields
      exact .ok (by rw [hfields])
    · refine ih.bind ?_
      intro mapping plain hfields
      exact .ok hfields

/-- **Without duplication the cells cannot be seen.** If a body duplicates nothing, its analysis and
the verdicts on the trees of its evaluation have the same outcome: both accept it with the same
parameter for each field and the same names of the parameters, or both reject it with the same
error, where the text of a derived value may differ. -/
theorem sameOutcome_analyze_of_not_dup (body : Body) (options : Options)
    (hdup : .dup ∉ body.instructions) :
    SameOutcome (fun analysis plain =>
        analysis.mapping.fields = plain.mapping.fields ∧
          analysis.parameterNames = plain.parameterNames)
      (body.analyze options) (Tree.analyze body options) := by
  rw [Body.analyze, Tree.analyze]
  refine (SameOutcome.of_agree (AliasFree.run_unshared body options hdup)).bind ?_
  intro state abstract h
  refine (sameOutcome_ofAssignments h.unfolds.assignments).bind ?_
  intro mapping plain hfields
  exact .ok ⟨hfields, h.unfolds.parameterNames⟩

/-- A constructor that stores what two calls make of its parameter. -/
def labelTrimmed : Body where
  declaringClass := "Label"
  superclass := "java.lang.Object"
  parameters := [.reference "java.lang.String"]
  instructions := [
    .loadLocal 0,
    .invoke ⟨.special, "java.lang.Object", "<init>", [], none⟩,
    .loadLocal 0,
    .loadLocal 1,
    .invoke ⟨.virtual, "java.lang.String", "trim", [], some (.reference "java.lang.String")⟩,
    .invoke ⟨.virtual, "java.lang.String", "intern", [], some (.reference "java.lang.String")⟩,
    .putField "label",
    .returnVoid]

theorem sameOutcome_analyze_labelTrimmed :
    .dup ∉ labelTrimmed.instructions ∧
      SameOutcome (fun analysis plain =>
          analysis.mapping.fields = plain.mapping.fields ∧
            analysis.parameterNames = plain.parameterNames)
        (labelTrimmed.analyze {}) (Tree.analyze labelTrimmed {}) := by
  have hdup : .dup ∉ labelTrimmed.instructions := by decide
  exact ⟨hdup, sameOutcome_analyze_of_not_dup labelTrimmed {} hdup⟩

end FieldFlow
