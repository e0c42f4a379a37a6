import FieldFlow.Proofs.AliasFree.Basic
import FieldFlow.Proofs.Machine.Run
import FieldFlow.Proofs.Value.Growth

/-!
# Simulation by a machine without cells

The symbolic machine and a machine without cells go through the same instructions with the same
failures, as long as the entries of the second describe the values of the first.

## Main Definitions

* `AliasFree.Abstracts`: what a description of values by entries has to satisfy
* `AliasFree.Simulates`: the states of the two machines correspond

## Main Statements

* `AliasFree.step_agree`: every instruction preserves the correspondence
* `AliasFree.run_agree`: so does a whole body, and both machines fail alike

## Design Notes

Cells enter in two ways only. A description has to survive their growth, since a call wraps the
content of a cell behind the back of every other reference to it; and a reference is described by
what describes the content of its cell. Everything else is one condition for each node of a value.
-/

namespace FieldFlow.AliasFree

open Machine (Context)

/-- A relation by which entries of a domain describe values, whatever happens to the cells. -/
structure Abstracts {α : Type} (domain : Domain α) (Rel : Cells → Value → α → Prop) : Prop where
  grows {cells later : Cells} {value : Value} {entry : α} :
    Rel cells value entry → cells.Grows later → Rel later value entry
  cell_lt_size {cells : Cells} {cell : CellId} {entry : α} :
    Rel cells (.ref cell) entry → cell < cells.size
  ref_iff {cells : Cells} {cell : CellId} {entry : α} :
    Rel cells (.ref cell) entry ↔ Rel cells (cells.content cell) entry
  this (cells : Cells) : Rel cells .this domain.this
  parameter (cells : Cells) (index : Nat) (kind : Kind) :
    Rel cells (.parameter index kind) (domain.parameter index kind)
  constant (cells : Cells) (constant : Constant) :
    Rel cells (.constant constant) (domain.constant constant)
  int (cells : Cells) (value : Int64) : Rel cells (.int value) (domain.int value)
  new (cells : Cells) (className : String) : Rel cells (.new className) (domain.new className)
  methodCall {cells : Cells} {receiver : Value} {entry : α} {args : List Value} {entries : List α}
    (name : String) : Rel cells receiver entry → List.Forall₂ (Rel cells) args entries →
      Rel cells (.methodCall receiver name args) (domain.methodCall entry name entries)
  staticCall {cells : Cells} {args : List Value} {entries : List α} (owner name : String) :
    List.Forall₂ (Rel cells) args entries →
      Rel cells (.staticCall owner name args) (domain.staticCall owner name entries)
  fieldRead {cells : Cells} {receiver : Value} {entry : α} (name : String) :
    Rel cells receiver entry → Rel cells (.fieldRead receiver name) (domain.fieldRead entry name)
  staticField (cells : Cells) (owner name : String) :
    Rel cells (.staticField owner name) (domain.staticField owner name)
  binaryOp {cells : Cells} {left right : Value} {entry second : α} (operator : Operator) :
    Rel cells left entry → Rel cells right second →
      Rel cells (.binaryOp operator left right) (domain.binaryOp operator entry second)
  denotesThis {cells : Cells} {value : Value} {entry : α} :
    Rel cells value entry → cells.denotesThis value = domain.denotesThis entry

/-- What describes a reference describes the value that it is resolved to. -/
theorem Abstracts.resolve {α : Type} {domain : Domain α} {Rel : Cells → Value → α → Prop}
    (abstracts : Abstracts domain Rel) {cells : Cells} {value : Value} {entry : α}
    (h : Rel cells value entry) : Rel cells (cells.resolve value) entry := by
  cases value with
  | ref cell => exact abstracts.ref_iff.1 h
  | _ => exact h

/-- A reference to a new cell is described by what describes the value in it. -/
theorem Abstracts.alloc {α : Type} {domain : Domain α} {Rel : Cells → Value → α → Prop}
    (abstracts : Abstracts domain Rel) {cells : Cells} {value : Value} {entry : α}
    (h : Rel cells value entry) : Rel (cells.alloc value).2 (.ref cells.size) entry := by
  rw [abstracts.ref_iff, Cells.content_alloc_self]
  exact abstracts.grows (abstracts.resolve h) (Cells.grows_alloc value)

/-- The same fields are assigned in the same order, and the entries describe the values. -/
structure Simulates {α : Type} (Rel : Cells → Value → α → Prop) (state : FieldFlow.State)
    (abstract : State α) : Prop where
  parameters : state.parameters = abstract.parameters
  locals : List.Forall₂ (Rel state.cells) state.locals.toList abstract.locals
  stack : List.Forall₂ (Rel state.cells) state.stack abstract.stack
  assignments : List.Forall₂ (fun assigned described =>
    assigned.1 = described.1 ∧ Rel state.cells assigned.2 described.2)
    state.assignments abstract.assignments
  names : state.names = abstract.names

variable {α : Type} {domain : Domain α} {Rel : Cells → Value → α → Prop}
variable {state : FieldFlow.State} {abstract : State α} {value : Value} {entry : α}

namespace Simulates

theorem depth (h : Simulates Rel state abstract) : state.depth = abstract.depth :=
  h.stack.length_eq

/-- The same fields are assigned. -/
theorem fields (h : Simulates Rel state abstract) :
    state.assignments.map (·.1) = abstract.assignments.map (·.1) := by
  rw [← List.forall₂_eq_eq_eq, List.forall₂_map_left_iff, List.forall₂_map_right_iff]
  exact h.assignments.imp fun _ _ same => same.1

theorem parameterNames (h : Simulates Rel state abstract) :
    state.parameterNames = abstract.parameterNames := by
  rw [FieldFlow.State.parameterNames, State.parameterNames, h.names]

/-- Entries may change on the stack as long as the cells only grow. -/
theorem update {cells : Cells} {stack : List Value} {entries : List α}
    (abstracts : Abstracts domain Rel) (h : Simulates Rel state abstract)
    (hgrows : state.cells.Grows cells) (hstack : List.Forall₂ (Rel cells) stack entries) :
    Simulates Rel { state with cells, stack } { abstract with stack := entries } where
  parameters := h.parameters
  locals := h.locals.imp fun _ _ hlocal => abstracts.grows hlocal hgrows
  stack := hstack
  assignments := h.assignments.imp fun _ _ same => ⟨same.1, abstracts.grows same.2 hgrows⟩
  names := h.names

theorem pushNew (abstracts : Abstracts domain Rel) (h : Simulates Rel state abstract)
    (hvalue : Rel state.cells value entry) :
    Simulates Rel ((state.alloc value).2.pushLiteral (.ref state.cells.size))
      (abstract.push entry) := by
  have hgrows : state.cells.Grows (state.cells.alloc value).2 := Cells.grows_alloc value
  have hstack := h.stack.imp fun _ _ held => abstracts.grows held hgrows
  have hpushed := h.update abstracts hgrows (.cons (abstracts.alloc hvalue) hstack)
  exact hpushed

/-- A value may be pushed as it is. -/
theorem pushLiteral (abstracts : Abstracts domain Rel) (h : Simulates Rel state abstract)
    (hvalue : Rel state.cells value entry) :
    Simulates Rel (state.pushLiteral value) (abstract.push entry) :=
  h.update abstracts (.refl _) (.cons hvalue h.stack)

/-- Whether a value is put behind a cell cannot be seen in its description. -/
theorem push (abstracts : Abstracts domain Rel) (h : Simulates Rel state abstract)
    (isReference : Bool) (hvalue : Rel state.cells value entry) :
    Simulates Rel (state.push isReference value) (abstract.push entry) := by
  rw [FieldFlow.State.push]
  split
  · exact h.pushNew abstracts hvalue
  · exact h.pushLiteral abstracts hvalue

end Simulates

/-! ### Operations -/

/-- What was taken from the two stacks corresponds, and so do the states that are left. Nothing but
the stack has changed. -/
def Taken {β γ : Type} (Rel : Cells → Value → α → Prop) (state : FieldFlow.State)
    (Held : β → γ → Prop) (taken : β × FieldFlow.State) (described : γ × State α) : Prop :=
  Held taken.1 described.1 ∧
    ∃ rest, taken.2 = { state with stack := rest } ∧ Simulates Rel taken.2 described.2

theorem pop_agree (abstracts : Abstracts domain Rel) (h : Simulates Rel state abstract) :
    Agree (Taken Rel state (Rel state.cells)) state.pop abstract.pop := by
  have hstack := h.stack
  rw [FieldFlow.State.pop, State.pop]
  cases hleft : state.stack with
  | nil =>
    rw [hleft, List.forall₂_nil_left_iff] at hstack
    rw [hstack]
    exact .error _
  | cons value rest =>
    rw [hleft, List.forall₂_cons_left_iff] at hstack
    obtain ⟨entry, entries, hvalue, hrest, hright⟩ := hstack
    rw [hright]
    exact .ok ⟨hvalue, rest, rfl, h.update abstracts (.refl _) hrest⟩

theorem peek_agree (h : Simulates Rel state abstract) :
    Agree (Rel state.cells) state.peek abstract.peek := by
  have hstack := h.stack
  rw [FieldFlow.State.peek, State.peek]
  cases hleft : state.stack with
  | nil =>
    rw [hleft, List.forall₂_nil_left_iff] at hstack
    rw [hstack]
    exact .error _
  | cons value rest =>
    rw [hleft, List.forall₂_cons_left_iff] at hstack
    obtain ⟨entry, entries, hvalue, -, hright⟩ := hstack
    rw [hright]
    exact .ok hvalue

theorem popMany_agree (abstracts : Abstracts domain Rel) (h : Simulates Rel state abstract)
    (count : Nat) :
    Agree (Taken Rel state (List.Forall₂ (Rel state.cells))) (state.popMany count)
      (abstract.popMany count) := by
  have hlength := h.stack.length_eq
  rw [FieldFlow.State.popMany, State.popMany, hlength]
  split
  · exact .error _
  · refine .ok ⟨?_, _, rfl, h.update abstracts (.refl _) (List.forall₂_drop count h.stack)⟩
    exact List.forall₂_reverse_iff.2 (List.forall₂_take count h.stack)

theorem assign_agree (h : Simulates Rel state abstract) (field : String)
    (hvalue : Rel state.cells value entry) :
    Agree (Simulates Rel) (state.assign field value) (abstract.assign field entry) := by
  have hany : state.assignments.any (·.1 == field) = abstract.assignments.any (·.1 == field) := by
    have hfields := congrArg (fun fields => fields.any (· == field)) h.fields
    rwa [List.any_map, List.any_map] at hfields
  rw [FieldFlow.State.assign, State.assign, hany]
  split
  · exact .error _
  · refine .ok { h with assignments := ?_ }
    exact List.rel_append h.assignments (.cons ⟨rfl, hvalue⟩ .nil)

theorem recordName_simulates (h : Simulates Rel state abstract) (slot : Nat) (name : String) :
    Simulates Rel (state.recordName slot name) (abstract.recordName slot name) := by
  rw [FieldFlow.State.recordName, State.recordName, FieldFlow.State.parameterAt?, h.parameters]
  cases if slot = 0 then none else FieldFlow.State.parameterFrom slot 0 1 abstract.parameters with
  | none => exact h
  | some index =>
    dsimp only
    exact { h with parameters := rfl, names := by rw [h.names] }

/-- A slot is outside for both machines, or holds a value and the entry that describes it. -/
theorem Simulates.getElem?_locals (h : Simulates Rel state abstract) (slot : Nat) :
    state.locals[slot]? = none ∧ abstract.locals[slot]? = none ∨
      ∃ value entry, state.locals[slot]? = some value ∧ abstract.locals[slot]? = some entry ∧
        Rel state.cells value entry := by
  have hlength := h.locals.length_eq
  rw [← Array.getElem?_toList]
  by_cases hslot : slot < abstract.locals.length
  · have hslot' : slot < state.locals.toList.length := hlength ▸ hslot
    refine .inr ⟨_, _, List.getElem?_eq_getElem hslot', List.getElem?_eq_getElem hslot, ?_⟩
    exact (List.forall₂_iff_get.1 h.locals).2 slot hslot' hslot
  · rw [← hlength] at hslot
    exact .inl ⟨List.getElem?_eq_none (Nat.not_lt.1 hslot),
      List.getElem?_eq_none (hlength ▸ Nat.not_lt.1 hslot)⟩

/-- Loading a slot is described by the entry of the slot, whether or not a cell is copied. -/
theorem load_agree (abstracts : Abstracts domain Rel) (h : Simulates Rel state abstract)
    (slot : Nat) :
    Agree (fun loaded entry => Simulates Rel (loaded.2.pushLiteral loaded.1) (abstract.push entry))
      (state.load slot) (abstract.load slot) := by
  have hlength : state.locals.size = abstract.locals.length := h.locals.length_eq
  rw [FieldFlow.State.load, State.load]
  rcases h.getElem?_locals slot with ⟨hleft, hright⟩ | ⟨value, entry, hleft, hright, hvalue⟩
  · rw [hleft, hright, hlength]
    exact .error _
  · rw [hleft, hright]
    cases value with
    | ref cell => exact .ok (h.pushNew abstracts hvalue)
    | _ => exact .ok (h.pushLiteral abstracts hvalue)

/-- The result of a call is described, whether or not it is pushed. -/
theorem leave_agree (abstracts : Abstracts domain Rel) (h : Simulates Rel state abstract)
    (returns : Option Kind) (hvalue : Rel state.cells value entry) :
    Agree (Simulates Rel)
      (match returns with
        | some kind => pure (state.push kind.isReference value)
        | none => pure state : Except AnalysisError FieldFlow.State)
      (match returns with
        | some _ => pure (abstract.push entry)
        | none => pure abstract) := by
  cases returns with
  | none => exact .ok h
  | some kind => exact .ok (h.push abstracts kind.isReference hvalue)

/-- A call through a reference is described by the call on what describes the reference. -/
theorem Simulates.rebind (abstracts : Abstracts domain Rel) (h : Simulates Rel state abstract)
    {cell : CellId} {args : List Value} {entries : List α} (name : String)
    (hcell : Rel state.cells (.ref cell) entry)
    (hargs : List.Forall₂ (Rel state.cells) args entries) :
    let rebound := state.rebind cell (.methodCall (state.cells.content cell) name args)
    Simulates Rel rebound abstract ∧
      Rel rebound.cells (.ref cell) (domain.methodCall entry name entries) := by
  -- For everything but the result, the call is growth of a cell.
  have hgrows := state.cells.grows_set cell name args
  refine ⟨h.update abstracts hgrows (h.stack.imp fun _ _ held => abstracts.grows held hgrows), ?_⟩
  have hcontent := abstracts.grows (abstracts.ref_iff.1 hcell) hgrows
  have hcall := abstracts.methodCall name hcontent
    (hargs.imp fun _ _ held => abstracts.grows held hgrows)
  rw [abstracts.ref_iff]
  have hset := Cells.content_set_self (abstracts.cell_lt_size hcell)
    (.methodCall (state.cells.content cell) name args)
  rw [Cells.resolve_of_isRef_eq_false rfl] at hset
  exact hset.symm ▸ hcall

theorem callMethod_agree (abstracts : Abstracts domain Rel) (h : Simulates Rel state abstract)
    (call : Call) :
    Agree (Simulates Rel) (Machine.callMethod call state) (callMethod domain call abstract) := by
  refine (popMany_agree abstracts h call.args.length).bind ?_
  rintro ⟨args, _⟩ ⟨entries, abstract⟩ ⟨hargs, rest, rfl, h⟩
  dsimp only at hargs h ⊢
  cases call.isStatic with
  | true => exact leave_agree abstracts h call.returns (abstracts.staticCall _ _ hargs)
  | false =>
    refine (pop_agree abstracts h).bind ?_
    rintro ⟨receiver, _⟩ ⟨entry, abstract⟩ ⟨hreceiver, rest, rfl, h⟩
    dsimp only at hreceiver h ⊢
    cases receiver with
    | ref cell =>
      obtain ⟨h, hresult⟩ := h.rebind abstracts call.name hreceiver hargs
      exact leave_agree abstracts h call.returns hresult
    | _ => exact leave_agree abstracts h call.returns (abstracts.methodCall _ hreceiver hargs)

theorem invoke_agree (abstracts : Abstracts domain Rel) (h : Simulates Rel state abstract)
    (context : Context) (call : Call) :
    Agree (Simulates Rel) (Machine.invoke context call state)
      (invoke domain context call abstract) := by
  rw [Machine.invoke, invoke]
  split
  · split
    · refine (pop_agree abstracts h).bind ?_
      rintro ⟨receiver, _⟩ ⟨entry, abstract⟩ ⟨-, rest, rfl, h⟩
      exact .ok h
    · exact .error _
  · split
    · exact .error _
    · exact callMethod_agree abstracts h call

/-! ### Instructions -/

/-- **Every instruction preserves the correspondence**, or both machines fail alike. -/
theorem step_agree (abstracts : Abstracts domain Rel) (h : Simulates Rel state abstract)
    (context : Context) (instruction : Instruction) :
    Agree (fun result abstract => Simulates Rel result.1 abstract)
      (Machine.step context instruction state) (step domain context instruction abstract) := by
  cases instruction with
  | pushNull => exact .ok (h.pushNew abstracts (abstracts.constant _ .null))
  | pushInt value => exact .ok (h.pushLiteral abstracts (abstracts.int _ value))
  | pushConst constant => exact .ok (h.push abstracts _ (abstracts.constant _ constant))
  | pop =>
    refine (pop_agree abstracts h).bind ?_
    rintro ⟨value, _⟩ ⟨entry, abstract⟩ ⟨-, rest, rfl, h⟩
    exact .ok h
  | pop2 =>
    refine (pop_agree abstracts h).bind ?_
    rintro ⟨value, _⟩ ⟨entry, abstract⟩ ⟨-, rest, rfl, h⟩
    refine (pop_agree abstracts h).bind ?_
    rintro ⟨value, _⟩ ⟨entry, abstract⟩ ⟨-, rest, rfl, h⟩
    exact .ok h
  | dup =>
    refine (peek_agree h).bind fun value entry hvalue => ?_
    exact .ok (h.pushLiteral abstracts hvalue)
  | binaryOp operator =>
    refine (pop_agree abstracts h).bind ?_
    rintro ⟨right, _⟩ ⟨second, abstract⟩ ⟨hright, rest, rfl, h⟩
    refine (pop_agree abstracts h).bind ?_
    rintro ⟨left, _⟩ ⟨entry, abstract⟩ ⟨hleft, rest, rfl, h⟩
    exact .ok (h.pushLiteral abstracts (abstracts.binaryOp operator hleft hright))
  | loadLocal slot =>
    exact (load_agree abstracts h slot.toNat).bind fun loaded entry h => .ok h
  | getStatic owner name kind => exact .ok (h.push abstracts _ (abstracts.staticField _ owner name))
  | getField name kind =>
    refine (pop_agree abstracts h).bind ?_
    rintro ⟨receiver, _⟩ ⟨entry, abstract⟩ ⟨hreceiver, rest, rfl, h⟩
    have hresolved : Rel state.cells (state.cells.resolve receiver) entry :=
      abstracts.resolve hreceiver
    exact .ok (h.push abstracts kind.isReference (abstracts.fieldRead name hresolved))
  | putField field =>
    refine (pop_agree abstracts h).bind ?_
    rintro ⟨value, _⟩ ⟨entry, abstract⟩ ⟨hvalue, rest, rfl, h⟩
    refine (pop_agree abstracts h).bind ?_
    rintro ⟨receiver, _⟩ ⟨second, abstract⟩ ⟨hreceiver, rest, rfl, h⟩
    dsimp only at hvalue hreceiver h ⊢
    -- Both machines make the same decision, and then the same check for duplicates.
    rw [abstracts.denotesThis hreceiver]
    split
    · exact (assign_agree h field hvalue).bind_pure fun state abstract h => h
    · exact .ok h
  | invoke call =>
    exact (invoke_agree abstracts h context call).bind_pure fun state abstract h => h
  | new className => exact .ok (h.pushNew abstracts (abstracts.new _ className))
  | localName slot name => exact .ok (recordName_simulates h slot.toNat name)
  | returnVoid =>
    rw [Machine.step, step, h.depth]
    split
    · exact .ok h
    · exact .error _
  | other mnemonic => exact .error _

theorem advance_agree (abstracts : Abstracts domain Rel) (h : Simulates Rel state abstract)
    (context : Context) (instruction : Instruction) :
    Agree (Simulates Rel) (Machine.advance context instruction state)
      (step domain context instruction abstract) :=
  (step_agree abstracts h context instruction).bind_pure fun _ _ h => h

/-! ### Executions and runs -/

theorem execute_agree (abstracts : Abstracts domain Rel) (context : Context)
    (executed : List Instruction) (h : Simulates Rel state abstract) :
    Agree (Simulates Rel) (Machine.execute context executed state)
      (execute domain context executed abstract) := by
  induction executed generalizing state abstract with
  | nil => exact .ok h
  | cons instruction rest ih =>
    exact (advance_agree abstracts h context instruction).bind fun _ _ h => ih h

theorem runFrom_agree (abstracts : Abstracts domain Rel) (context : Context) (offset : Nat)
    (instructions : List Instruction) (h : Simulates Rel state abstract) :
    Agree (Simulates Rel) (Machine.runFrom context offset instructions state)
      (runFrom domain context offset instructions abstract) := by
  induction instructions generalizing offset state abstract with
  | nil => exact .error _
  | cons instruction rest ih =>
    rw [Machine.runFrom_cons, runFrom]
    refine (advance_agree abstracts h context instruction).bind fun next abstract h => ?_
    split
    · split
      · exact .ok h
      · exact .error _
    · exact ih (offset + 1) h

/-! ### The initial state -/

theorem forall₂_replicate {β γ : Type} {R : β → γ → Prop} {b : β} {c : γ} (h : R b c)
    (count : Nat) : List.Forall₂ R (List.replicate count b) (List.replicate count c) := by
  induction count with
  | zero => exact .nil
  | succ count ih => exact .cons h ih

/-- The slots of parameters are described by the entries of the parameters, and so is what was in
the slots before them. -/
theorem addParameters_describes (abstracts : Abstracts domain Rel) (kinds : List Kind)
    (index : Nat) {cells : Cells} {locals : Array Value} {entries : List α}
    (h : List.Forall₂ (Rel cells) locals.toList entries) :
    let added := FieldFlow.State.addParameters cells locals index kinds
    List.Forall₂ (Rel added.1) added.2.toList
      (entries ++ State.parametersFrom domain index kinds) := by
  -- The slots before `index` are an accumulator of both functions.
  induction kinds generalizing index cells locals entries with
  | nil => simpa [FieldFlow.State.addParameters, State.parametersFrom] using h
  | cons kind kinds ih =>
    have hparameter := abstracts.parameter cells index kind
    rw [FieldFlow.State.addParameters, State.parametersFrom, ← List.append_assoc]
    split
    next =>
      refine ih (index + 1) ?_
      rw [Array.toList_append, Array.toList_replicate]
      refine List.rel_append (h.imp fun _ _ held => ?_) (forall₂_replicate ?_ _)
      · exact abstracts.grows held (Cells.grows_alloc _)
      · exact abstracts.alloc hparameter
    next =>
      refine ih (index + 1) ?_
      rw [Array.toList_append, Array.toList_replicate]
      exact List.rel_append h (forall₂_replicate hparameter _)

theorem initial_simulates (abstracts : Abstracts domain Rel) (parameters : List Kind) :
    Simulates Rel (.initial parameters) (.initial domain parameters) where
  parameters := rfl
  locals := addParameters_describes abstracts parameters 0 (.cons (abstracts.this _) .nil)
  stack := .nil
  assignments := .nil
  names := rfl

/-- **Both machines accept a body in corresponding states, or reject it with the same error.** -/
theorem run_agree (abstracts : Abstracts domain Rel) (body : Body) (options : Options) :
    Agree (Simulates Rel) (Machine.run body options) (run domain body options) := by
  rw [Machine.run, run]
  split
  · exact .error _
  · exact runFrom_agree abstracts _ 0 body.instructions (initial_simulates abstracts _)

/-- Every state of a run corresponds to the state after the same instructions. -/
theorem visits_simulates (abstracts : Abstracts domain Rel) {body : Body} {options : Options}
    {executed : List Instruction} (h : Machine.Visits body options executed state) :
    ∃ abstract, execute domain (.of body options) executed (.initial domain body.parameters) =
      .ok abstract ∧ Simulates Rel state abstract :=
  (execute_agree abstracts _ executed (initial_simulates abstracts _)).exists_of_eq_ok h.reached

end FieldFlow.AliasFree
