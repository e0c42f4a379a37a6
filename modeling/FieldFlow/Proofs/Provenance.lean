import FieldFlow.Proofs.Machine.Layers
import FieldFlow.Proofs.Machine.Locals
import FieldFlow.Proofs.Machine.Names
import FieldFlow.Proofs.Table
import FieldFlow.Report

/-!
# Provenance of bindings

How a parameter comes to be the one that a field is set from: a slot of it is loaded, and what is
made of it is stored later.

## Main Definitions

* `Value.MadeOf`: the parameters that occur in a value, and the cells that it may refer to
* `State.Sourced`: the stack is made of certain parameters

## Main Statements

* `Machine.Transition.sourced`: only a load adds to the parameters that the stack is made of
* `Machine.Visits.loaded_of_reaches`: what the stack leads to has been loaded
* `State.Regular.reaches_of_grows`: the parameter that a value passes on could be reached from it
  before its cells changed
* `Body.provenance_of_analyze`: the loads behind the bindings of an accepted constructor

## Design Notes

The first cells hold the parameters, whether they are loaded or not. No reference to them ever
leaves the slots, since a load copies the content of the cell into a new one. So the parameters that
the stack leads to are looked for in all cells but the first.
-/

namespace FieldFlow

namespace Value

/-- Every parameter in the value has the property, and every reference is to a cell from the first
one on. -/
def MadeOf (P : Nat → Kind → Prop) (first : CellId) : Value → Prop :=
  Throughout fun node => (∀ index kind, node = .parameter index kind → P index kind) ∧
    ∀ cell, node = .ref cell → first ≤ cell

variable {P Q : Nat → Kind → Prop} {first cell : CellId} {index : Nat} {kind : Kind}
variable {value : Value}

theorem MadeOf.imp (h : MadeOf P first value) (himp : ∀ index kind, P index kind → Q index kind) :
    MadeOf Q first value :=
  Throughout.imp h fun _ hnode =>
    ⟨fun index kind heq => himp index kind (hnode.1 index kind heq), hnode.2⟩

theorem madeOf_parameter : MadeOf P first (.parameter index kind) ↔ P index kind := by
  rw [MadeOf, throughout_iff]
  constructor
  · intro h
    exact h.1.1 index kind rfl
  · intro h
    refine ⟨⟨?_, nofun⟩, nofun⟩
    rintro _ _ ⟨⟩
    exact h

theorem madeOf_ref : MadeOf P first (.ref cell) ↔ first ≤ cell := by
  rw [MadeOf, throughout_iff]
  constructor
  · intro h
    exact h.1.2 cell rfl
  · intro h
    refine ⟨⟨nofun, ?_⟩, nofun⟩
    rintro _ ⟨⟩
    exact h

/-- Any other value is made of what its operands are made of. -/
theorem madeOf_of_operands (hparameter : ∀ index kind, value ≠ .parameter index kind)
    (direct : value.isRef = false) (h : ∀ operand ∈ value.operands, MadeOf P first operand) :
    MadeOf P first value := by
  rw [MadeOf, throughout_iff]
  refine ⟨⟨fun index kind heq => absurd heq (hparameter index kind), ?_⟩, h⟩
  rintro cell rfl
  cases direct

/-- A value without operands is made of nothing. -/
theorem madeOf_leaf (hparameter : ∀ index kind, value ≠ .parameter index kind)
    (direct : value.isRef = false) (hnone : value.operands = []) : MadeOf P first value := by
  refine madeOf_of_operands hparameter direct ?_
  rw [hnone]
  nofun

end Value

/-! ### What the stack is made of -/

namespace State

variable {P Q : Nat → Kind → Prop} {first cell : CellId} {index : Nat} {kind : Kind}
variable {state : State} {value : Value} {stack : List Value}

/-- The entries of the stack are made of the parameters with the property, and so are the contents
of all cells that they may refer to. -/
structure Sourced (P : Nat → Kind → Prop) (first : CellId) (state : State) : Prop where
  size : first ≤ state.cells.size
  entries : ∀ entry ∈ state.stack, entry.MadeOf P first
  contents : ∀ cell, first ≤ cell → (state.cells.content cell).MadeOf P first

namespace Sourced

theorem imp (h : state.Sourced P first) (himp : ∀ index kind, P index kind → Q index kind) :
    state.Sourced Q first where
  size := h.size
  entries := fun entry hmem => (h.entries entry hmem).imp himp
  contents := fun cell hcell => (h.contents cell hcell).imp himp

theorem resolve (h : state.Sourced P first) (hvalue : value.MadeOf P first) :
    (state.cells.resolve value).MadeOf P first := by
  cases value with
  | ref cell => exact h.contents cell (Value.madeOf_ref.1 hvalue)
  | _ => exact hvalue

/-- What is reached from the stack is made of the same parameters. -/
theorem of_reaches (h : state.Sourced P first) (hvalue : value.MadeOf P first) {target : Value}
    (hreach : state.cells.Reaches value target) : target.MadeOf P first := by
  induction hreach with
  | refl => exact hvalue
  | tail _ step ih =>
    cases step with
    | operand mem => exact ih.operand mem
    | content cell => exact h.contents cell (Value.madeOf_ref.1 ih)

theorem restack (h : state.Sourced P first) (hsub : stack ⊆ state.stack) :
    Sourced P first { state with stack } where
  size := h.size
  entries := fun entry hmem => h.entries entry (hsub hmem)
  contents := h.contents

/-- Entries may be taken from the stack. -/
theorem taken (h : state.Sourced P first) (entries : List Value) {rest : List Value}
    (hstack : state.stack = entries ++ rest) : (∀ entry ∈ entries, entry.MadeOf P first) ∧
      Sourced P first { state with stack := rest } := by
  refine ⟨?_, h.restack ?_⟩
  · intro entry hmem
    exact h.entries entry (hstack ▸ List.mem_append_left rest hmem)
  · rw [hstack]
    exact List.subset_append_right entries rest

theorem pushLiteral (h : state.Sourced P first) (hvalue : value.MadeOf P first) :
    (state.pushLiteral value).Sourced P first where
  size := h.size
  entries := List.forall_mem_cons.2 ⟨hvalue, h.entries⟩
  contents := h.contents

/-- A content is put into a new cell, and a reference to the cell on the stack. -/
theorem pushNew (h : state.Sourced P first)
    (hcontent : (state.cells.resolve value).MadeOf P first) :
    ((state.alloc value).2.pushLiteral (.ref state.cells.size)).Sourced P first := by
  have hsize : (state.alloc value).2.cells.size = state.cells.size + 1 := Cells.size_alloc value
  have halloc : (state.alloc value).2.Sourced P first := by
    refine ⟨hsize ▸ Nat.le_succ_of_le h.size, h.entries, ?_⟩
    intro cell hcell
    rcases Nat.lt_trichotomy cell state.cells.size with hlt | rfl | hgt
    · show ((state.cells.alloc value).2.content cell).MadeOf P first
      rw [Cells.content_alloc_of_lt hlt]
      exact h.contents cell hcell
    · show ((state.cells.alloc value).2.content state.cells.size).MadeOf P first
      rw [Cells.content_alloc_self]
      exact hcontent
    · rw [Cells.content_of_size_le (hsize ▸ hgt)]
      exact Value.madeOf_ref.2 hcell
  exact halloc.pushLiteral (Value.madeOf_ref.2 h.size)

theorem push (h : state.Sourced P first) (isReference : Bool) (hvalue : value.MadeOf P first) :
    (state.push isReference value).Sourced P first := by
  rw [State.push]
  split
  · exact h.pushNew (h.resolve hvalue)
  · exact h.pushLiteral hvalue

theorem leave (h : state.Sourced P first) (returns : Option Kind) (hvalue : value.MadeOf P first) :
    (Machine.leave returns value state).Sourced P first := by
  cases returns with
  | none => exact h
  | some kind => exact h.push kind.isReference hvalue

theorem rebind (h : state.Sourced P first) (hcell : cell < state.cells.size)
    (hvalue : value.MadeOf P first) : (state.rebind cell value).Sourced P first where
  size := Nat.le_trans h.size (Nat.le_of_eq (Cells.size_set cell value).symm)
  entries := h.entries
  contents := by
    intro other hother
    show ((state.cells.set cell value).content other).MadeOf P first
    by_cases hsame : other = cell
    · rw [hsame, Cells.content_set_self hcell]
      exact h.resolve hvalue
    · rw [Cells.content_set_of_ne hsame]
      exact h.contents other hother

theorem recordName (h : state.Sourced P first) (slot : Nat) (name : String) :
    (state.recordName slot name).Sourced P first := by
  rw [State.recordName]
  split
  · exact h
  · exact ⟨h.size, h.entries, h.contents⟩

/-- The stack is empty at first, so it is made of nothing. -/
theorem initial (parameters : List Kind) :
    (State.initial parameters).Sourced P (State.initial parameters).cells.size where
  size := Nat.le_refl _
  entries := nofun
  contents := by
    intro cell hcell
    rw [Cells.content_of_size_le hcell]
    exact Value.madeOf_ref.2 hcell

end Sourced

end State

namespace Machine

variable {context : Context} {instruction : Instruction} {state next : State}
variable {body : Body} {options : Options} {executed : List Instruction}
variable {P : Nat → Kind → Prop} {first : CellId} {value : Value}

/-- **Only a load adds to the parameters that the stack is made of.** -/
theorem Transition.sourced (h : Transition context state instruction next)
    (hregular : state.Regular) (hsourced : state.Sourced P first)
    (hload : ∀ slot held, instruction = .loadLocal slot → state.locals[slot.toNat]? = some held →
      (state.cells.resolve held).MadeOf P first) :
    next.Sourced P first := by
  cases h with
  | pushNull => exact hsourced.pushNew (Value.madeOf_leaf nofun rfl rfl)
  | pushInt value => exact hsourced.pushLiteral (Value.madeOf_leaf nofun rfl rfl)
  | pushConst constant => exact hsourced.push _ (Value.madeOf_leaf nofun rfl rfl)
  | @pop top rest taken => exact (hsourced.taken [top] taken).2
  | @pop2 top second rest taken => exact (hsourced.taken [top, second] taken).2
  | dup taken => exact hsourced.pushLiteral (hsourced.entries _ (taken ▸ List.mem_cons_self))
  | @binaryOp operator left right rest taken =>
    obtain ⟨hentries, hrest⟩ := hsourced.taken [right, left] taken
    refine hrest.pushLiteral (Value.madeOf_of_operands nofun rfl ?_)
    intro operand hmem
    exact hentries operand (List.mem_reverse.2 hmem)
  | loadCell held => exact hsourced.pushNew (hload _ _ rfl held)
  | loadValue held direct =>
    have hvalue := hload _ _ rfl held
    rw [Cells.resolve_of_isRef_eq_false direct] at hvalue
    exact hsourced.pushLiteral hvalue
  | getStatic owner name kind => exact hsourced.push _ (Value.madeOf_leaf nofun rfl rfl)
  | @getField name kind receiver rest taken =>
    obtain ⟨hentries, hrest⟩ := hsourced.taken [receiver] taken
    refine hrest.push _ (Value.madeOf_of_operands nofun rfl ?_)
    intro operand hmem
    rw [List.mem_singleton.1 hmem]
    exact hsourced.resolve (hentries receiver List.mem_cons_self)
  | @store field value receiver rest taken own fresh =>
    obtain ⟨-, hrest⟩ := hsourced.taken [value, receiver] taken
    exact ⟨hrest.size, hrest.entries, hrest.contents⟩
  | @ignore field value receiver rest taken foreign =>
    exact (hsourced.taken [value, receiver] taken).2
  | @superCall call receiver rest delegates noArgs taken =>
    exact (hsourced.taken [receiver] taken).2
  | staticCall notSuper notSelf static count taken =>
    obtain ⟨hentries, hrest⟩ := hsourced.taken _ taken
    refine hrest.leave _ (Value.madeOf_of_operands nofun rfl ?_)
    intro arg hmem
    exact hentries arg (List.mem_reverse.2 hmem)
  | @cellCall call args rest cell notSuper notSelf static count taken =>
    obtain ⟨hargs, hreceiver⟩ := hsourced.taken _ taken
    obtain ⟨hcell, hrest⟩ := hreceiver.taken [.ref cell] rfl
    have href := hcell _ List.mem_cons_self
    have hsize := Value.scoped_ref.1 (admits_of_call hregular taken).1.scope
    refine (hrest.rebind hsize ?_).leave _ href
    refine Value.madeOf_of_operands nofun rfl (List.forall_mem_cons.2 ⟨hsourced.resolve href, ?_⟩)
    intro arg hmem
    exact hargs arg (List.mem_reverse.2 hmem)
  | @valueCall call args rest receiver notSuper notSelf static count direct taken =>
    obtain ⟨hargs, hreceiver⟩ := hsourced.taken _ taken
    obtain ⟨hentries, hrest⟩ := hreceiver.taken [receiver] rfl
    refine hrest.leave _ (Value.madeOf_of_operands nofun rfl (List.forall_mem_cons.2 ⟨?_, ?_⟩))
    · exact hentries receiver List.mem_cons_self
    · intro arg hmem
      exact hargs arg (List.mem_reverse.2 hmem)
  | new className => exact hsourced.pushNew (Value.madeOf_leaf nofun rfl rfl)
  | localName slot name => exact hsourced.recordName slot.toNat name
  | returnVoid done => exact hsourced

/-! ### Loads of a run -/

/-- One of the instructions loads a slot of the parameter. -/
def Loaded (body : Body) (executed : List Instruction) (index : Nat) (kind : Kind) : Prop :=
  ∃ slot, .loadLocal slot ∈ executed ∧ Body.Occupies body.parameters index kind slot.toNat

/-- A slot holds the object under construction, or the parameter that the slot belongs to. -/
theorem madeOf_of_laid (hlaid : State.Laid state.cells state.locals body.parameters)
    {slot : UInt16} {held : Value} (hslot : state.locals[slot.toNat]? = some held)
    (hloads : .loadLocal slot ∈ executed) :
    (state.cells.resolve held).MadeOf (Loaded body executed) first := by
  obtain ⟨hlt, -⟩ := Array.getElem?_eq_some_iff.1 hslot
  rw [hlaid.size] at hlt
  rcases Nat.eq_zero_or_pos slot.toNat with hzero | hpos
  · rw [hzero, hlaid.this] at hslot
    cases hslot
    exact Value.madeOf_leaf nofun rfl rfl
  · obtain ⟨index, kind, hoccupies⟩ := Body.exists_occupies hpos hlt
    obtain ⟨value, hvalue, -, hresolve⟩ := hlaid.parameter index kind _ hoccupies
    rw [hslot] at hvalue
    cases hvalue
    rw [hresolve]
    exact Value.madeOf_parameter.2 ⟨slot, hloads, hoccupies⟩

/-- **The stack of every state of a run is made of parameters that have been loaded.** -/
theorem Visits.sourced (h : Visits body options executed state) :
    state.Sourced (Loaded body executed) (State.initial body.parameters).cells.size := by
  refine Visits.induction (P := fun executed state =>
    state.Sourced (Loaded body executed) (State.initial body.parameters).cells.size)
    (.initial body.parameters) ?_ h
  intro executed instruction state next hvisits _ htransition hsourced
  refine htransition.sourced hvisits.regular (hsourced.imp ?_) ?_
  · rintro index kind ⟨slot, hmem, hoccupies⟩
    exact ⟨slot, List.mem_append_left _ hmem, hoccupies⟩
  · rintro slot held rfl hslot
    exact madeOf_of_laid hvisits.laid hslot (List.mem_append_right _ List.mem_cons_self)

/-- **What the stack leads to has been loaded.** -/
theorem Visits.loaded_of_reaches (h : Visits body options executed state)
    (hmem : value ∈ state.stack) {index : Nat} {kind : Kind}
    (hreach : state.cells.Reaches value (.parameter index kind)) :
    Loaded body executed index kind :=
  Value.madeOf_parameter.1 (h.sourced.of_reaches (h.sourced.entries value hmem) hreach)

end Machine

/-! ### Parameters that are passed on -/

namespace Cells

/-- A parameter is its own root. -/
theorem rootedAt_of_parameter? (cells : Cells) {value : Value} {binding : Binding}
    (h : Verdict.parameter? value = some binding) :
    cells.RootedAt 0 value (.parameter binding.parameter binding.kind) := by
  rw [Verdict.parameter?_eq_some_iff.1 h]
  exact .root rfl

end Cells

namespace State.Regular

variable {state : State} {later : Cells} {value : Value} {binding : Binding}

/-- **The parameter that a value passes on could be reached from it before its cells grew.** It is
the root of the value, or that of the argument of a static call which is the root. -/
theorem reaches_of_grows (hstate : state.Regular) (hscoped : value.Scoped state.cells.size)
    (hgrows : state.cells.Grows later)
    (h : Verdict.binding? later (later.resolve value) = some binding) :
    state.cells.Reaches value (.parameter binding.parameter binding.kind) := by
  have hroot {passed : Nat} {root : Value} (h : later.RootedAt passed (later.resolve value) root) :
      state.cells.Reaches value root := hstate.reaches_root hscoped hgrows h
  generalize later.resolve value = passedOn at h hroot
  unfold Verdict.binding? at h
  split at h
  next index kind =>
    cases h
    exact hroot (.root rfl)
  next owner name arg =>
    split at h
    next =>
      have hcall : state.cells.Reaches value (.staticCall owner name [arg]) := hroot (.root rfl)
      have harg := hcall.trans (.head (.operand List.mem_cons_self) (.refl arg))
      have hargScoped := hstate.scoped_of_reaches hscoped harg
      have hparameter := Cells.rootedAt_of_parameter? later h
      exact harg.trans (hstate.reaches_root hargScoped hgrows hparameter)
    next => cases h
  next receiver name =>
    obtain ⟨h, -⟩ := Option.filter_eq_some_iff.1 h
    obtain ⟨passed, hreceiver⟩ := (Cells.rootedAt_of_parameter? later h).of_resolve
    exact hroot (hreceiver.receiver name [])
  next => cases h

end State.Regular

/-! ### Reports -/

namespace Analysis

variable {analysis : Analysis} {field name : String} {binding : Binding} {names : List String}

/-- The line of a field shows the name of its parameter, if all parameters have names. -/
theorem fieldLine_eq (hnames : analysis.parameterNames = some names)
    (hname : names[binding.parameter]? = some name) : analysis.fieldLine field binding =
      "  " ++ field ++ " <- p" ++ toString binding.parameter ++ (" " ++ name) ++ " : " ++
        binding.kind.text := by
  simp only [fieldLine, hnames, Option.bind_some, hname]

/-- Every field of the mapping has its line. -/
theorem mem_fieldLines (h : (field, binding) ∈ analysis.mapping.fields.entries) :
    analysis.fieldLine field binding ∈ analysis.fieldLines := by
  rw [fieldLines]
  split
  next hempty =>
    rw [List.isEmpty_iff.1 hempty] at h
    cases h
  next => exact List.mem_map.2 ⟨_, h, rfl⟩

end Analysis

/-! ### Accepted constructors -/

namespace Body

variable {body : Body} {options : Options} {analysis : Analysis} {field : String}
variable {binding : Binding}

/-- The field of a binding was stored after a slot of its parameter was loaded. -/
theorem exists_load_of_get? (h : body.analyze options = .ok analysis)
    (hfield : analysis.mapping.fields.get? field = some binding) :
    ∃ before after, body.instructions = before ++ .putField field :: after ∧
      Machine.Loaded body before binding.parameter binding.kind := by
  obtain ⟨last, hrun, hmapping, -⟩ := analyze_eq_ok_iff.1 h
  have hlast := Machine.Visits.of_run hrun
  obtain ⟨value, hassigned, hbound⟩ := Mapping.exists_bound_of_get? hmapping hfield
  obtain ⟨before, after, state, hsplit, hvisits, hmem⟩ := hlast.exists_store hassigned
  have hgrows : state.cells.Grows last.cells := by
    rw [hsplit] at hlast
    exact Machine.execute_grows (hvisits.execute_rest hlast)
  have hreach := hvisits.regular.reaches_of_grows
    (hvisits.regular.mentioned value (.entry hmem)) hgrows (Verdict.of_eq_bound_iff.1 hbound)
  exact ⟨before, after, hsplit, hvisits.loaded_of_reaches hmem hreach⟩

/-- **Every binding comes from a load of its parameter.** The parameter is declared with the kind of
the binding. The constructor stores the field, and loads a slot of the parameter before that. If the
parameters of the constructor have names, each of them has one, and the line of every field shows
the name of its parameter. -/
theorem provenance_of_analyze (body : Body) (options : Options) (analysis : Analysis)
    (h : body.analyze options = .ok analysis) :
    (∀ field binding, (field, binding) ∈ analysis.mapping.fields.entries →
      body.parameters[binding.parameter]? = some binding.kind ∧
      ∃ before after, body.instructions = before ++ .putField field :: after ∧
        ∃ slot, .loadLocal slot ∈ before ∧
          Occupies body.parameters binding.parameter binding.kind slot.toNat) ∧
    ∀ names, analysis.parameterNames = some names →
      names.length = body.parameters.length ∧
      ∀ field binding, (field, binding) ∈ analysis.mapping.fields.entries →
        ∃ name, names[binding.parameter]? = some name ∧
          "  " ++ field ++ " <- p" ++ toString binding.parameter ++ (" " ++ name) ++ " : " ++
            binding.kind.text ∈ analysis.fieldLines := by
  have hbindings : ∀ field binding, (field, binding) ∈ analysis.mapping.fields.entries →
      body.parameters[binding.parameter]? = some binding.kind ∧
      ∃ before after, body.instructions = before ++ .putField field :: after ∧
        ∃ slot, .loadLocal slot ∈ before ∧
          Occupies body.parameters binding.parameter binding.kind slot.toNat := by
    intro field binding hentry
    obtain ⟨before, after, hsplit, slot, hloads, hoccupies⟩ :=
      exists_load_of_get? h (Table.get?_eq_some_iff_mem.2 hentry)
    exact ⟨hoccupies.declared, before, after, hsplit, slot, hloads, hoccupies⟩
  refine ⟨hbindings, ?_⟩
  intro names hnames
  obtain ⟨last, hrun, -, hlast⟩ := analyze_eq_ok_iff.1 h
  obtain ⟨hlength, -⟩ := (Machine.Visits.of_run hrun).recorded.lastName?_eq (hlast ▸ hnames)
  refine ⟨hlength, ?_⟩
  intro field binding hentry
  obtain ⟨hindex, -⟩ := List.getElem?_eq_some_iff.1 (hbindings field binding hentry).1
  rw [← hlength] at hindex
  have hname := List.getElem?_eq_getElem hindex
  refine ⟨_, hname, ?_⟩
  rw [← Analysis.fieldLine_eq hnames hname]
  exact Analysis.mem_fieldLines hentry

/-- A constructor that stores a parameter in a wrapper object, and another one that it loads before
and calls a method on afterwards. -/
def ledger : Body where
  declaringClass := "Ledger"
  superclass := "java.lang.Object"
  parameters := [.long, .reference "java.lang.String"]
  instructions := [
    .loadLocal 0,
    .invoke ⟨.special, "java.lang.Object", "<init>", [], none⟩,
    .localName 1 "opened",
    .localName 3 "owner",
    .loadLocal 3,
    .loadLocal 0,
    .loadLocal 1,
    .invoke ⟨.static, "java.lang.Long", "valueOf", [.long], some (.reference "java.lang.Long")⟩,
    .putField "opened",
    .loadLocal 0,
    .loadLocal 3,
    .putField "owner",
    .invoke ⟨.virtual, "java.lang.String", "hashCode", [], none⟩,
    .returnVoid]

theorem provenance_of_analyze_ledger :
    ∃ analysis, ledger.analyze {} = .ok analysis ∧
      (∃ before after, ledger.instructions = before ++ .putField "opened" :: after ∧
        ∃ slot, .loadLocal slot ∈ before ∧ Occupies ledger.parameters 0 .long slot.toNat) ∧
      ∃ name, ["opened", "owner"][1]? = some name ∧
        "  " ++ "owner" ++ " <- p" ++ toString 1 ++ (" " ++ name) ++ " : " ++
          Kind.text (.reference "java.lang.String") ∈ analysis.fieldLines := by
  have hanalyze : ledger.analyze {} =
      .ok ⟨⟨(Table.empty.insert "owner" ⟨1, .reference "java.lang.String"⟩).insert "opened"
        ⟨0, .long⟩, []⟩, some ["opened", "owner"]⟩ := by
    with_unfolding_all rfl
  obtain ⟨hbindings, hnames⟩ := provenance_of_analyze ledger {} _ hanalyze
  have hopened := hbindings "opened" ⟨0, .long⟩ (by decide)
  have howner := (hnames _ rfl).2 "owner" ⟨1, .reference "java.lang.String"⟩ (by decide)
  exact ⟨_, hanalyze, hopened.2, howner⟩

end Body

end FieldFlow
