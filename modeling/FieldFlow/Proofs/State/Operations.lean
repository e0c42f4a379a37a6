import FieldFlow.Proofs.Machine.Invariants
import FieldFlow.Proofs.Value.Occurs

/-!
# Operations on a state

Sequences of the operations on a state, whoever chooses them, and what holds of every state that
they lead to.

## Main Definitions

* `State.Holds`: a value is in a slot, on the stack, assigned to a field, or in a cell
* `State.WellFormed`: only existing cells are mentioned, and no cell holds a bare reference
* `State.Operation`, `State.Operation.perform`: the operations, and their effect
* `State.Performs`: a sequence of operations whose values and cells mention only existing cells

## Main Statements

* `State.wellFormed_initial`, `State.Performs.wellFormed`: every state reached is well-formed
* `State.Performs.each`: operations only move values, so what holds of all values that they are
  given holds of all values in the states that they lead to

## Design Notes

Every operation is described once, by `State.Operation.holds_perform`: what it leaves in the state
was there before, was given to it, or is a reference to an existing cell. A failed operation leaves
the state as it is.
-/

namespace FieldFlow

namespace Cells

variable {cells : Cells} {value : Value}

/-- A cell below the size has a content. -/
theorem isSome_get? {cell : CellId} (h : cell < cells.size) : (cells.get? cell).isSome := by
  rw [size] at h
  simp [get?, h]

theorem get?_of_lt {cell : CellId} (h : cell < cells.size) :
    cells.get? cell = some (cells.content cell) := by
  obtain ⟨value, hvalue⟩ := Option.isSome_iff_exists.1 (isSome_get? h)
  rw [content, hvalue]
  rfl

/-- No cell holds a bare reference. -/
def Direct (cells : Cells) : Prop :=
  ∀ cell < cells.size, (cells.content cell).isRef = false

/-- One reference leads to the value that it stands for. -/
theorem Direct.isRef_resolve (h : cells.Direct) (hscoped : value.Scoped cells.size) :
    (cells.resolve value).isRef = false := by
  cases value with
  | ref cell => exact h cell (Value.scoped_ref.1 hscoped)
  | _ => rfl

theorem Direct.alloc (h : cells.Direct) (hscoped : value.Scoped cells.size) :
    (cells.alloc value).2.Direct := by
  intro cell hcell
  rw [size_alloc] at hcell
  by_cases hold : cell < cells.size
  · rw [content_alloc_of_lt hold]
    exact h cell hold
  · obtain rfl : cell = cells.size := Nat.eq_of_lt_succ_of_not_lt hcell hold
    rw [content_alloc_self]
    exact h.isRef_resolve hscoped

theorem Direct.set (h : cells.Direct) (hscoped : value.Scoped cells.size) (cell : CellId) :
    (cells.set cell value).Direct := by
  intro other hother
  rw [size_set] at hother
  by_cases hsame : other = cell
  · subst hsame
    rw [content_set_self hother]
    exact h.isRef_resolve hscoped
  · rw [content_set_of_ne hsame]
    exact h other hother

end Cells

namespace State

variable {state next last : State} {value held : Value} {P : Value → Prop}

/-! ### The values of a state -/

/-- The value is in a local slot, on the stack, assigned to a field, or the content of a cell. -/
inductive Holds (state : State) : Value → Prop
  | slot {value : Value} (mem : value ∈ state.locals) : Holds state value
  | entry {value : Value} (mem : value ∈ state.stack) : Holds state value
  | assigned {field : String} {value : Value} (mem : (field, value) ∈ state.assignments) :
      Holds state value
  | content {cell : CellId} (exists_cell : cell < state.cells.size) :
      Holds state (state.cells.content cell)

theorem holds_pushLiteral (h : (state.pushLiteral value).Holds held) :
    held = value ∨ state.Holds held := by
  cases h with
  | slot mem => exact .inr (.slot mem)
  | entry mem =>
    rcases List.mem_cons.1 mem with heq | mem
    · exact .inl heq
    · exact .inr (.entry mem)
  | assigned mem => exact .inr (.assigned mem)
  | content hcell => exact .inr (.content hcell)

theorem holds_alloc (h : (state.alloc value).2.Holds held) :
    held = state.cells.resolve value ∨ state.Holds held := by
  cases h with
  | slot mem => exact .inr (.slot mem)
  | entry mem => exact .inr (.entry mem)
  | assigned mem => exact .inr (.assigned mem)
  | @content cell hcell =>
    have hsize : cell < (state.cells.alloc value).2.size := hcell
    rw [Cells.size_alloc] at hsize
    show (state.cells.alloc value).2.content cell = state.cells.resolve value ∨
      state.Holds ((state.cells.alloc value).2.content cell)
    by_cases hold : cell < state.cells.size
    · rw [Cells.content_alloc_of_lt hold]
      exact .inr (.content hold)
    · obtain rfl : cell = state.cells.size := Nat.eq_of_lt_succ_of_not_lt hsize hold
      exact .inl (Cells.content_alloc_self value)

theorem holds_rebind {cell : CellId} (h : (state.rebind cell value).Holds held) :
    held = state.cells.resolve value ∨ state.Holds held := by
  cases h with
  | slot mem => exact .inr (.slot mem)
  | entry mem => exact .inr (.entry mem)
  | assigned mem => exact .inr (.assigned mem)
  | @content other hother =>
    have hsize : other < (state.cells.set cell value).size := hother
    rw [Cells.size_set] at hsize
    show (state.cells.set cell value).content other = state.cells.resolve value ∨
      state.Holds ((state.cells.set cell value).content other)
    by_cases hsame : other = cell
    · subst hsame
      exact .inl (Cells.content_set_self hsize value)
    · rw [Cells.content_set_of_ne hsame]
      exact .inr (.content hsize)

/-- Entries that are taken from the stack do not add anything. -/
theorem holds_of_subset {stack : List Value} (hsub : stack ⊆ state.stack)
    (h : { state with stack }.Holds held) : state.Holds held := by
  cases h with
  | slot mem => exact .slot mem
  | entry mem => exact .entry (hsub mem)
  | assigned mem => exact .assigned mem
  | content hcell => exact .content hcell

theorem holds_assigned {field : String} (h : { state with
      assignments := state.assignments ++ [(field, value)] }.Holds held) :
    held = value ∨ state.Holds held := by
  cases h with
  | slot mem => exact .inr (.slot mem)
  | entry mem => exact .inr (.entry mem)
  | assigned mem =>
    rcases List.mem_append.1 mem with mem | mem
    · exact .inr (.assigned mem)
    · cases List.mem_singleton.1 mem
      exact .inl rfl
  | content hcell => exact .inr (.content hcell)

theorem holds_recordName {slot : Nat} {name : String}
    (h : (state.recordName slot name).Holds held) :
    state.Holds held := by
  unfold recordName at h
  split at h
  · exact h
  · cases h with
    | slot mem => exact .slot mem
    | entry mem => exact .entry mem
    | assigned mem => exact .assigned mem
    | content hcell => exact .content hcell

/-! ### Well-formed states -/

/-- Every value of the state has the property. -/
def Each (P : Value → Prop) (state : State) : Prop :=
  ∀ value, state.Holds value → P value

/-- Only existing cells are mentioned, at any depth, and no cell holds a bare reference. -/
structure WellFormed (state : State) : Prop where
  mentioned : state.Each (Value.Scoped state.cells.size)
  direct : state.cells.Direct

/-- Below a value that mentions only existing cells, there are no others. -/
theorem WellFormed.scoped_of_reaches {target : Value} (h : state.WellFormed)
    (hscoped : value.Scoped state.cells.size) (hreach : state.cells.Reaches value target) :
    target.Scoped state.cells.size := by
  induction hreach with
  | refl => exact hscoped
  | tail _ step ih =>
    cases step with
    | operand mem => exact ih.operand mem
    | content cell => exact h.mentioned _ (.content (Value.scoped_ref.1 ih))

/-- A value is put into a cell as it is, unless it is a reference. Then the cell gets a content that
is there already. -/
theorem resolve_eq_or_holds (hscoped : value.Scoped state.cells.size) :
    state.cells.resolve value = value ∨ state.Holds (state.cells.resolve value) := by
  cases value with
  | ref cell => exact .inr (.content (Value.scoped_ref.1 hscoped))
  | _ => exact .inl rfl

/-- The state after an operation that may fail, and then does nothing. -/
def after (state : State) : Except AnalysisError State → State
  | .ok next => next
  | .error _ => state

end State

/-! ### Operations -/

/-- An operation on a state, with what it is given. -/
inductive State.Operation where
  | push (isReference : Bool) (value : Value)
  | pushLiteral (value : Value)
  | pop
  | peek
  | popMany (count : Nat)
  | load (slot : Nat)
  | alloc (value : Value)
  | rebind (cell : CellId) (value : Value)
  | assign (field : String) (value : Value)
  | recordName (slot : Nat) (name : String)

namespace State.Operation

variable {state : State} {operation : Operation} {held : Value} {P : Value → Prop}

/-- The effect of the operation on a state. What it returns besides is left aside. -/
def perform (state : State) : Operation → State
  | push isReference value => state.push isReference value
  | pushLiteral value => state.pushLiteral value
  | pop => state.after (state.pop.map (·.2))
  | peek => state
  | popMany count => state.after ((state.popMany count).map (·.2))
  | load slot => state.after ((state.load slot).map (·.2))
  | alloc value => (state.alloc value).2
  | rebind cell value => state.rebind cell value
  | assign field value => state.after (state.assign field value)
  | recordName slot name => state.recordName slot name

/-- The values that the operation is given. -/
def values : Operation → List Value
  | push _ value | pushLiteral value | alloc value | rebind _ value | assign _ value => [value]
  | _ => []

/-- The cells that the operation is given. -/
def cells : Operation → List CellId
  | rebind cell _ => [cell]
  | _ => []

/-- The operation is given only cells below the bound, and values that mention no others. -/
structure Scoped (bound : Nat) (operation : Operation) : Prop where
  values : ∀ value ∈ operation.values, value.Scoped bound
  cells : ∀ cell ∈ operation.cells, cell < bound

/-! ### What an operation does -/

theorem perform_pop (state : State) :
    ∃ stack ⊆ state.stack, pop.perform state = { state with stack } := by
  rw [perform, State.pop]
  cases hstack : state.stack with
  | nil => exact ⟨state.stack, by simp [hstack], rfl⟩
  | cons value stack => exact ⟨stack, List.subset_cons_self value stack, rfl⟩

theorem perform_popMany (state : State) (count : Nat) :
    ∃ stack ⊆ state.stack, (popMany count).perform state = { state with stack } := by
  rw [perform, State.popMany]
  split
  · exact ⟨state.stack, List.Subset.refl _, rfl⟩
  · exact ⟨state.stack.drop count, List.drop_subset count state.stack, rfl⟩

/-- Loading a slot adds a cell if the slot holds a reference, and does nothing otherwise. -/
theorem perform_load (state : State) (slot : Nat) :
    (load slot).perform state = state ∨
      ∃ cell, .ref cell ∈ state.locals ∧
        (load slot).perform state = (state.alloc (.ref cell)).2 := by
  rw [perform, State.load]
  split
  next => exact .inl rfl
  next cell hheld => exact .inr ⟨cell, Array.mem_of_getElem? hheld, rfl⟩
  next => exact .inl rfl

theorem perform_assign (state : State) (field : String) (value : Value) :
    (assign field value).perform state = state ∨
      (assign field value).perform state =
        { state with assignments := state.assignments ++ [(field, value)] } := by
  rw [perform, State.assign]
  split
  · exact .inl rfl
  · exact .inr rfl

/-- An operation adds a cell, changes one, or leaves the cells alone. -/
theorem cells_perform (hstate : state.WellFormed) (h : operation.Scoped state.cells.size) :
    (operation.perform state).cells = state.cells ∨
      ∃ value, value.Scoped state.cells.size ∧
        ((operation.perform state).cells = (state.cells.alloc value).2 ∨
          ∃ cell, (operation.perform state).cells = state.cells.set cell value) := by
  cases operation with
  | push isReference value =>
    rw [perform, State.push]
    split
    · exact .inr ⟨value, h.values value List.mem_cons_self, .inl rfl⟩
    · exact .inl rfl
  | pop =>
    obtain ⟨stack, -, heq⟩ := perform_pop state
    rw [heq]
    exact .inl rfl
  | popMany count =>
    obtain ⟨stack, -, heq⟩ := perform_popMany state count
    rw [heq]
    exact .inl rfl
  | load slot =>
    rcases perform_load state slot with heq | ⟨cell, hmem, heq⟩
    · rw [heq]
      exact .inl rfl
    · rw [heq]
      exact .inr ⟨.ref cell, hstate.mentioned _ (.slot hmem), .inl rfl⟩
  | alloc value => exact .inr ⟨value, h.values value List.mem_cons_self, .inl rfl⟩
  | rebind cell value => exact .inr ⟨value, h.values value List.mem_cons_self, .inr ⟨cell, rfl⟩⟩
  | assign field value =>
    rcases perform_assign state field value with heq | heq
    · rw [heq]
      exact .inl rfl
    · rw [heq]
      exact .inl rfl
  | recordName slot name => exact .inl (state.cells_recordName slot name)
  | pushLiteral value => exact .inl rfl
  | peek => exact .inl rfl

/-- Cells stay. -/
theorem size_le_perform (hstate : state.WellFormed) (h : operation.Scoped state.cells.size) :
    state.cells.size ≤ (operation.perform state).cells.size := by
  rcases cells_perform hstate h with heq | ⟨value, -, heq | ⟨cell, heq⟩⟩
  · exact Nat.le_of_eq (congrArg Cells.size heq).symm
  · rw [heq, Cells.size_alloc]
    exact Nat.le_succ _
  · rw [heq]
    exact Nat.le_of_eq (Cells.size_set cell value).symm

theorem direct_perform (hstate : state.WellFormed) (h : operation.Scoped state.cells.size) :
    (operation.perform state).cells.Direct := by
  rcases cells_perform hstate h with heq | ⟨value, hvalue, heq | ⟨cell, heq⟩⟩
  · rw [heq]
    exact hstate.direct
  · rw [heq]
    exact hstate.direct.alloc hvalue
  · rw [heq]
    exact hstate.direct.set hvalue cell

/-- What there is after an operation was there before, was given to the operation, or is a reference
to an existing cell. -/
theorem holds_perform (hstate : state.WellFormed) (h : operation.Scoped state.cells.size)
    (hheld : (operation.perform state).Holds held) :
    state.Holds held ∨ held ∈ operation.values ∨
      ∃ cell < (operation.perform state).cells.size, held = .ref cell := by
  -- A content is given to the operation, or is there already.
  have hcontent : ∀ value, value.Scoped state.cells.size → held = state.cells.resolve value →
      state.Holds held ∨ held = value := by
    intro value hscoped heq
    rcases State.resolve_eq_or_holds hscoped with hsame | hold
    · exact .inr (heq.trans hsame)
    · exact .inl (heq ▸ hold)
  cases operation with
  | push isReference value =>
    have hvalue := h.values value List.mem_cons_self
    rw [perform, State.push] at hheld ⊢
    split at hheld
    next hnew =>
      rw [if_pos hnew]
      rcases State.holds_pushLiteral hheld with rfl | hheld
      · refine .inr (.inr ⟨state.cells.size, ?_, rfl⟩)
        show state.cells.size < (state.cells.alloc value).2.size
        rw [Cells.size_alloc]
        exact Nat.lt_succ_self _
      · rcases State.holds_alloc hheld with heq | hold
        · rcases hcontent value hvalue heq with hold | rfl
          · exact .inl hold
          · exact .inr (.inl List.mem_cons_self)
        · exact .inl hold
    next =>
      rcases State.holds_pushLiteral hheld with rfl | hold
      · exact .inr (.inl List.mem_cons_self)
      · exact .inl hold
  | pushLiteral value =>
    rcases State.holds_pushLiteral hheld with rfl | hold
    · exact .inr (.inl List.mem_cons_self)
    · exact .inl hold
  | pop =>
    obtain ⟨stack, hsub, heq⟩ := perform_pop state
    rw [heq] at hheld
    exact .inl (State.holds_of_subset hsub hheld)
  | popMany count =>
    obtain ⟨stack, hsub, heq⟩ := perform_popMany state count
    rw [heq] at hheld
    exact .inl (State.holds_of_subset hsub hheld)
  | peek => exact .inl hheld
  | load slot =>
    rcases perform_load state slot with heq | ⟨cell, hmem, heq⟩
    · rw [heq] at hheld
      exact .inl hheld
    · rw [heq] at hheld
      rcases State.holds_alloc hheld with hnew | hold
      · rcases hcontent (.ref cell) (hstate.mentioned _ (.slot hmem)) hnew with hold | rfl
        · exact .inl hold
        · exact .inl (.slot hmem)
      · exact .inl hold
  | alloc value =>
    rcases State.holds_alloc hheld with hnew | hold
    · rcases hcontent value (h.values value List.mem_cons_self) hnew with hold | rfl
      · exact .inl hold
      · exact .inr (.inl List.mem_cons_self)
    · exact .inl hold
  | rebind cell value =>
    rcases State.holds_rebind hheld with hnew | hold
    · rcases hcontent value (h.values value List.mem_cons_self) hnew with hold | rfl
      · exact .inl hold
      · exact .inr (.inl List.mem_cons_self)
    · exact .inl hold
  | assign field value =>
    rcases perform_assign state field value with heq | heq
    · rw [heq] at hheld
      exact .inl hheld
    · rw [heq] at hheld
      rcases State.holds_assigned hheld with rfl | hold
      · exact .inr (.inl List.mem_cons_self)
      · exact .inl hold
  | recordName slot name => exact .inl (State.holds_recordName hheld)

/-- An operation only moves values, so it keeps a property that all references have and all values
that it is given. -/
theorem each_perform (hstate : state.WellFormed) (h : operation.Scoped state.cells.size)
    (href : ∀ cell < (operation.perform state).cells.size, P (.ref cell))
    (hvalues : ∀ value ∈ operation.values, P value) (hP : state.Each P) :
    (operation.perform state).Each P := by
  intro held hheld
  rcases holds_perform hstate h hheld with hold | hgiven | ⟨cell, hcell, rfl⟩
  · exact hP held hold
  · exact hvalues held hgiven
  · exact href cell hcell

/-- **Every operation keeps a state well-formed.** -/
theorem wellFormed_perform (hstate : state.WellFormed) (h : operation.Scoped state.cells.size) :
    (operation.perform state).WellFormed where
  mentioned := by
    have hsize := size_le_perform hstate h
    refine each_perform hstate h ?_ ?_ ?_
    · intro cell hcell
      exact Value.scoped_ref.2 hcell
    · intro value hvalue
      exact (h.values value hvalue).mono hsize
    · intro value hvalue
      exact (hstate.mentioned value hvalue).mono hsize
  direct := direct_perform hstate h

end State.Operation

/-! ### Sequences of operations -/

namespace State

variable {state next last : State} {operations more : List Operation} {P : Value → Prop}

/-- The operations lead from one state to another. Each is given only cells that exist when its turn
comes, and values that mention no others. -/
inductive Performs : State → List Operation → State → Prop
  | done (state : State) : Performs state [] state
  | next {state last : State} {operation : Operation} {operations : List Operation}
      (scope : operation.Scoped state.cells.size)
      (later : Performs (operation.perform state) operations last) :
      Performs state (operation :: operations) last

theorem Performs.append (h : Performs state operations next) (later : Performs next more last) :
    Performs state (operations ++ more) last := by
  induction h with
  | done state => exact later
  | next scope _ ih => exact .next scope (ih later)

/-- **Every sequence of operations keeps a state well-formed.** -/
theorem Performs.wellFormed (h : Performs state operations last) (hstate : state.WellFormed) :
    last.WellFormed := by
  induction h with
  | done state => exact hstate
  | next scope _ ih => exact ih (Operation.wellFormed_perform hstate scope)

/-- What all references have and all values that are given to a sequence of operations, it keeps. -/
theorem Performs.each (h : Performs state operations last) (hstate : state.WellFormed)
    (href : ∀ cell, P (.ref cell))
    (hvalues : ∀ operation ∈ operations, ∀ value ∈ operation.values, P value)
    (hP : state.Each P) : last.Each P := by
  induction h with
  | done state => exact hP
  | @next state last operation operations scope _ ih =>
    refine ih (Operation.wellFormed_perform hstate scope) ?_ ?_
    · intro later hlater
      exact hvalues later (.tail _ hlater)
    · refine Operation.each_perform hstate scope (fun cell _ => href cell) ?_ hP
      exact hvalues operation List.mem_cons_self

/-! ### The initial state -/

/-- The slots and cells of parameters: a slot holds the object under construction, a parameter or a
reference to an existing cell, and each cell holds a parameter. -/
structure Slots (cells : Cells) (locals : Array Value) : Prop where
  slot : ∀ value ∈ locals, value = .this ∨ (∃ index kind, value = .parameter index kind) ∨
    ∃ cell < cells.size, value = .ref cell
  cell : ∀ cell < cells.size, ∃ index kind, cells.content cell = .parameter index kind

variable {cells : Cells} {locals : Array Value}

/-- A reference parameter gets a new cell, to which its slots refer. -/
theorem Slots.reference (h : Slots cells locals) (index : Nat) (kind : Kind) (count : Nat) :
    Slots (cells.alloc (.parameter index kind)).2
      (locals ++ Array.replicate count (.ref cells.size)) where
  slot := by
    intro value hmem
    rw [Cells.size_alloc]
    rcases Array.mem_append.1 hmem with hmem | hmem
    · rcases h.slot value hmem with hthis | hparameter | ⟨cell, hcell, heq⟩
      · exact .inl hthis
      · exact .inr (.inl hparameter)
      · exact .inr (.inr ⟨cell, Nat.lt_succ_of_lt hcell, heq⟩)
    · obtain rfl := (Array.mem_replicate.1 hmem).2
      exact .inr (.inr ⟨cells.size, Nat.lt_succ_self _, rfl⟩)
  cell := by
    intro cell hcell
    rw [Cells.size_alloc] at hcell
    by_cases hold : cell < cells.size
    · rw [Cells.content_alloc_of_lt hold]
      exact h.cell cell hold
    · obtain rfl : cell = cells.size := Nat.eq_of_lt_succ_of_not_lt hcell hold
      exact ⟨index, kind, Cells.content_alloc_self _⟩

/-- A parameter of any other kind is in its slots itself. -/
theorem Slots.primitive (h : Slots cells locals) (index : Nat) (kind : Kind) (count : Nat) :
    Slots cells (locals ++ Array.replicate count (.parameter index kind)) where
  slot := by
    intro value hmem
    rcases Array.mem_append.1 hmem with hmem | hmem
    · exact h.slot value hmem
    · exact .inr (.inl ⟨index, kind, (Array.mem_replicate.1 hmem).2⟩)
  cell := h.cell

theorem Slots.addParameters (h : Slots cells locals) (index : Nat) (kinds : List Kind) :
    let added := State.addParameters cells locals index kinds
    Slots added.1 added.2 := by
  induction kinds generalizing index cells locals with
  | nil => exact h
  | cons kind kinds ih =>
    rw [State.addParameters]
    split
    · exact ih (h.reference index kind kind.width) (index + 1)
    · exact ih (h.primitive index kind kind.width) (index + 1)

theorem slots_initial (parameters : List Kind) :
    Slots (initial parameters).cells (initial parameters).locals := by
  have hthis : Slots .empty #[.this] := by
    refine ⟨?_, ?_⟩
    · intro value hmem
      exact .inl (by simpa using hmem)
    · intro cell hcell
      exact absurd hcell (Nat.not_lt_zero cell)
  exact hthis.addParameters 0 parameters

/-- What the object under construction, all parameters and all references to cells of the initial
state have, all of its values have. -/
theorem each_initial {parameters : List Kind} (hthis : P .this)
    (hparameter : ∀ index kind, P (.parameter index kind))
    (href : ∀ cell < (initial parameters).cells.size, P (.ref cell)) :
    (initial parameters).Each P := by
  have hslots := slots_initial parameters
  intro value hheld
  cases hheld with
  | slot mem =>
    rcases hslots.slot value mem with rfl | ⟨index, kind, rfl⟩ | ⟨cell, hcell, rfl⟩
    · exact hthis
    · exact hparameter index kind
    · exact href cell hcell
  | entry mem => cases mem
  | assigned mem => cases mem
  | @content cell hcell =>
    obtain ⟨index, kind, heq⟩ := hslots.cell cell hcell
    rw [heq]
    exact hparameter index kind

theorem wellFormed_initial (parameters : List Kind) : (initial parameters).WellFormed where
  mentioned := by
    refine each_initial ?_ ?_ ?_
    · exact (Value.scoped_iff_operands rfl).2 nofun
    · intro index kind
      exact (Value.scoped_iff_operands rfl).2 nofun
    · intro cell hcell
      exact Value.scoped_ref.2 hcell
  direct := by
    intro cell hcell
    obtain ⟨index, kind, heq⟩ := (slots_initial parameters).cell cell hcell
    rw [heq]
    rfl

end State

end FieldFlow
