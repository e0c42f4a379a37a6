import FieldFlow.Proofs.State.Operations

/-!
# Well-formed states of a run

Every instruction is a sequence of operations on the state, so what holds after any operations
holds of the states of a run.

## Main Definitions

* `State.Regular`: a well-formed state in which all receivers are direct
* `Cells.Admits`: a value that may be put into a regular state
* `State.Follows`: a state is reached from another one by operations that are given such values

## Main Statements

* `Machine.Transition.follows`: every instruction is a sequence of operations
* `Machine.Visits.regular`: the states of a run are regular
* `State.cells_exist_of_performs`: well-formedness for all sequences of operations, and the states
  of a run as states that such sequences lead to

## Design Notes

The operations of an instruction are given values that the machine has put together. All of them
have direct receivers: a field is read from a value that has been resolved, and a call through a
reference is a call on the content of its cell.
-/

namespace FieldFlow

namespace Cells

variable {cells : Cells} {value : Value} {args : List Value}

/-- The value mentions only existing cells, and has direct receivers. -/
structure Admits (cells : Cells) (value : Value) : Prop where
  scope : value.Scoped cells.size
  receivers : value.DirectReceivers

namespace Admits

theorem ref {cell : CellId} (h : cell < cells.size) : cells.Admits (.ref cell) where
  scope := Value.scoped_ref.2 h
  receivers := (Value.directReceivers_iff_operands rfl).2 nofun

/-- A value without a receiver is admitted with its operands. -/
theorem of_operands (direct : value.isRef = false) (hnone : value.receiver? = none)
    (h : ∀ operand ∈ value.operands, cells.Admits operand) : cells.Admits value where
  scope := (Value.scoped_iff_operands direct).2 fun operand mem => (h operand mem).scope
  receivers :=
    (Value.directReceivers_iff_operands hnone).2 fun operand mem => (h operand mem).receivers

/-- A call or a field read on anything but a reference is admitted with its operands. -/
theorem of_receiver {receiver : Value} (hsome : value.receiver? = some receiver)
    (direct : receiver.isRef = false) (h : ∀ operand ∈ value.operands, cells.Admits operand) :
    cells.Admits value where
  scope := by
    have hvalue : value.isRef = false := by cases value <;> first | rfl | cases hsome
    exact (Value.scoped_iff_operands hvalue).2 fun operand mem => (h operand mem).scope
  receivers := .of_receiver hsome direct fun operand mem => (h operand mem).receivers

theorem methodCall {receiver : Value} (h : cells.Admits receiver) (direct : receiver.isRef = false)
    (name : String) (hargs : ∀ arg ∈ args, cells.Admits arg) :
    cells.Admits (.methodCall receiver name args) := by
  refine .of_receiver rfl direct ?_
  intro operand mem
  rcases List.mem_cons.1 mem with rfl | mem
  · exact h
  · exact hargs operand mem

theorem fieldRead {receiver : Value} (h : cells.Admits receiver) (direct : receiver.isRef = false)
    (name : String) : cells.Admits (.fieldRead receiver name) := by
  refine .of_receiver rfl direct ?_
  intro operand mem
  rw [List.mem_singleton.1 mem]
  exact h

theorem binaryOp {left right : Value} (operator : Operator) (h : cells.Admits left)
    (h' : cells.Admits right) : cells.Admits (.binaryOp operator left right) := by
  refine .of_operands rfl rfl ?_
  intro operand mem
  rcases List.mem_cons.1 mem with rfl | mem
  · exact h
  · rw [List.mem_singleton.1 mem]
    exact h'

end Admits

end Cells

namespace State

variable {state next last : State} {value top : Value} {args rest : List Value}

/-- A well-formed state without a call or a field read on a bare reference. -/
structure Regular (state : State) : Prop extends state.WellFormed where
  receivers : state.Each Value.DirectReceivers

theorem Regular.admits (h : state.Regular) (hheld : state.Holds value) : state.cells.Admits value :=
  ⟨h.mentioned value hheld, h.receivers value hheld⟩

/-- What a stack holds on top is admitted. -/
theorem Regular.admits_taken {taken : List Value} (h : state.Regular)
    (hstack : state.stack = taken ++ rest) : ∀ value ∈ taken, state.cells.Admits value := by
  intro value hmem
  refine h.admits (.entry ?_)
  rw [hstack]
  exact List.mem_append_left rest hmem

/-- What a reference stands for is no reference, and is admitted with it. -/
theorem Regular.admits_resolve (hstate : state.Regular) (h : state.cells.Admits value) :
    state.cells.Admits (state.cells.resolve value) ∧ (state.cells.resolve value).isRef = false := by
  refine ⟨?_, hstate.direct.isRef_resolve h.scope⟩
  rcases resolve_eq_or_holds h.scope with heq | hheld
  · rw [heq]
    exact h
  · exact hstate.admits hheld

/-! ### States that follow by operations -/

/-- The second state is reached from the first by operations whose values have direct receivers. -/
def Follows (state next : State) : Prop :=
  ∃ operations, Performs state operations next ∧
    ∀ operation ∈ operations, ∀ value ∈ operation.values, value.DirectReceivers

namespace Follows

theorem refl (state : State) : Follows state state :=
  ⟨[], .done state, nofun⟩

theorem trans (h : Follows state next) (later : Follows next last) : Follows state last := by
  obtain ⟨operations, hperforms, hvalues⟩ := h
  obtain ⟨more, hperforms', hvalues'⟩ := later
  refine ⟨operations ++ more, hperforms.append hperforms', ?_⟩
  intro operation hmem
  rcases List.mem_append.1 hmem with hmem | hmem
  · exact hvalues operation hmem
  · exact hvalues' operation hmem

/-- One operation follows if it is given existing cells and admitted values. -/
theorem operation (operation : Operation)
    (hvalues : ∀ value ∈ operation.values, state.cells.Admits value)
    (hcells : ∀ cell ∈ operation.cells, cell < state.cells.size) :
    Follows state (operation.perform state) := by
  have scope : operation.Scoped state.cells.size :=
    ⟨fun value hmem => (hvalues value hmem).scope, hcells⟩
  refine ⟨[operation], .next scope (.done _), ?_⟩
  intro other hmem value hvalue
  rw [List.mem_singleton.1 hmem] at hvalue
  exact (hvalues value hvalue).receivers

theorem pop (taken : state.stack = top :: rest) : Follows state { state with stack := rest } := by
  have hpop : Operation.pop.perform state = { state with stack := rest } := by
    rw [Operation.perform, Machine.pop_eq_ok_iff.2 ⟨rest, taken, rfl⟩]
    rfl
  rw [← hpop]
  exact .operation .pop (List.forall_mem_nil _) (List.forall_mem_nil _)

theorem popMany (taken : state.stack = args.reverse ++ rest) :
    Follows state { state with stack := rest } := by
  have hpop : (Operation.popMany args.length).perform state = { state with stack := rest } := by
    rw [Operation.perform, Machine.popMany_eq_ok_iff.2 ⟨rest, rfl, taken, rfl⟩]
    rfl
  rw [← hpop]
  exact .operation (.popMany args.length) (List.forall_mem_nil _) (List.forall_mem_nil _)

theorem pushLiteral (h : state.cells.Admits value) : Follows state (state.pushLiteral value) := by
  refine .operation (.pushLiteral value) ?_ nofun
  intro other hmem
  rw [List.mem_singleton.1 hmem]
  exact h

theorem push (isReference : Bool) (h : state.cells.Admits value) :
    Follows state (state.push isReference value) := by
  refine .operation (.push isReference value) ?_ nofun
  intro other hmem
  rw [List.mem_singleton.1 hmem]
  exact h

/-- The result of a call is pushed, or left out. -/
theorem leave (returns : Option Kind) (h : state.cells.Admits value) :
    Follows state (Machine.leave returns value state) := by
  cases returns with
  | none => exact .refl state
  | some kind => exact .push kind.isReference h

/-- A value is put into a new cell, and a reference to the cell on the stack. -/
theorem pushNew (h : state.cells.Admits value) :
    Follows state ((state.alloc value).2.pushLiteral (.ref state.cells.size)) := by
  have halloc : Follows state (state.alloc value).2 := by
    refine .operation (.alloc value) ?_ nofun
    intro other hmem
    rw [List.mem_singleton.1 hmem]
    exact h
  have hsize : state.cells.size < (state.alloc value).2.cells.size := by
    show state.cells.size < (state.cells.alloc value).2.size
    rw [Cells.size_alloc]
    exact Nat.lt_succ_self _
  exact halloc.trans (.pushLiteral (.ref hsize))

theorem rebind {cell : CellId} (hcell : cell < state.cells.size) (h : state.cells.Admits value) :
    Follows state (state.rebind cell value) := by
  refine .operation (.rebind cell value) ?_ ?_
  · intro other hmem
    rw [List.mem_singleton.1 hmem]
    exact h
  · intro other hmem
    rw [List.mem_singleton.1 hmem]
    exact hcell

theorem assign {field : String} (hfresh : field ∉ state.assignments.map (·.1))
    (h : state.cells.Admits value) :
    Follows state { state with assignments := state.assignments ++ [(field, value)] } := by
  have hassign : (Operation.assign field value).perform state =
      { state with assignments := state.assignments ++ [(field, value)] } := by
    rw [Operation.perform, Machine.assign_eq_ok_iff.2 ⟨hfresh, rfl⟩]
    rfl
  rw [← hassign]
  refine .operation (.assign field value) ?_ (List.forall_mem_nil _)
  intro other hmem
  rw [List.mem_singleton.1 hmem]
  exact h

/-- States that follow a regular state are regular. -/
theorem regular (h : Follows state next) (hstate : state.Regular) : next.Regular := by
  obtain ⟨operations, hperforms, hvalues⟩ := h
  refine { hperforms.wellFormed hstate.toWellFormed with receivers := ?_ }
  refine hperforms.each hstate.toWellFormed ?_ hvalues hstate.receivers
  intro cell
  exact (Value.directReceivers_iff_operands rfl).2 nofun

end Follows

theorem regular_initial (parameters : List Kind) : (initial parameters).Regular := by
  refine { wellFormed_initial parameters with receivers := ?_ }
  refine each_initial ?_ ?_ ?_
  · exact (Value.directReceivers_iff_operands rfl).2 nofun
  · intro index kind
    exact (Value.directReceivers_iff_operands rfl).2 nofun
  · intro cell hcell
    exact (Value.directReceivers_iff_operands rfl).2 nofun

end State

namespace Machine

variable {context : Context} {instruction : Instruction} {state next last : State}
variable {body : Body} {options : Options} {executed : List Instruction}

/-- The receiver and the arguments of a call are admitted. -/
theorem admits_of_call {args rest : List Value} {receiver : Value} (hstate : state.Regular)
    (taken : state.stack = args.reverse ++ receiver :: rest) :
    state.cells.Admits receiver ∧ ∀ arg ∈ args, state.cells.Admits arg := by
  have htaken : state.stack = (args.reverse ++ [receiver]) ++ rest := by
    rw [taken, List.append_assoc]
    rfl
  have hadmits := hstate.admits_taken htaken
  refine ⟨hadmits receiver (by simp), ?_⟩
  intro arg hmem
  exact hadmits arg (by simp [hmem])

/-- **Every instruction is a sequence of operations** that are given existing cells only, and values
that mention no others and have direct receivers. -/
theorem Transition.follows (h : Transition context state instruction next)
    (hstate : state.Regular) : State.Follows state next := by
  cases h with
  | pushNull => exact .pushNew (.of_operands rfl rfl nofun)
  | pushInt value => exact .pushLiteral (.of_operands rfl rfl nofun)
  | pushConst constant => exact .push constant.isReference (.of_operands rfl rfl nofun)
  | pop taken => exact .pop taken
  | pop2 taken => exact (State.Follows.pop taken).trans (.pop rfl)
  | @dup top rest taken =>
    have hadmits : ∀ entry ∈ [top], state.cells.Admits entry := hstate.admits_taken taken
    exact .pushLiteral (hadmits top List.mem_cons_self)
  | @binaryOp operator left right rest taken =>
    have hadmits : ∀ entry ∈ [right, left], state.cells.Admits entry := hstate.admits_taken taken
    have hleft := hadmits left (.tail _ List.mem_cons_self)
    have hright := hadmits right List.mem_cons_self
    have hpop := (State.Follows.pop taken).trans (.pop rfl)
    exact hpop.trans (.pushLiteral (.binaryOp operator hleft hright))
  | loadCell held => exact .pushNew (hstate.admits (.slot (Array.mem_of_getElem? held)))
  | loadValue held direct => exact .pushLiteral (hstate.admits (.slot (Array.mem_of_getElem? held)))
  | getStatic owner name kind => exact .push kind.isReference (.of_operands rfl rfl nofun)
  | @getField name kind receiver rest taken =>
    have hadmits : ∀ entry ∈ [receiver], state.cells.Admits entry := hstate.admits_taken taken
    obtain ⟨hresolved, hdirect⟩ := hstate.admits_resolve (hadmits receiver List.mem_cons_self)
    have hpop := State.Follows.pop taken
    exact hpop.trans (.push kind.isReference (.fieldRead hresolved hdirect name))
  | @store field value receiver rest taken own fresh =>
    have hadmits : ∀ entry ∈ [value, receiver], state.cells.Admits entry :=
      hstate.admits_taken taken
    have hvalue := hadmits value List.mem_cons_self
    have hpop := (State.Follows.pop taken).trans (.pop rfl)
    exact hpop.trans (.assign fresh hvalue)
  | ignore taken foreign => exact (State.Follows.pop taken).trans (.pop rfl)
  | superCall delegates noArgs taken => exact .pop taken
  | @staticCall call args rest notSuper notSelf static count taken =>
    have hadmits := hstate.admits_taken taken
    have hargs : ∀ arg ∈ args, state.cells.Admits arg := by simpa using hadmits
    exact (State.Follows.popMany taken).trans (.leave call.returns (.of_operands rfl rfl hargs))
  | @cellCall call args rest cell notSuper notSelf static count taken =>
    obtain ⟨hreceiver, hargs⟩ := admits_of_call hstate taken
    have hcell : cell < state.cells.size := Value.scoped_ref.1 hreceiver.scope
    obtain ⟨hcontent, hdirect⟩ := hstate.admits_resolve hreceiver
    have hpop := (State.Follows.popMany taken).trans (.pop rfl)
    -- The content of the cell becomes the receiver of the call, and the cell is its result.
    have hrebind := hpop.trans (.rebind hcell (.methodCall hcontent hdirect call.name hargs))
    refine hrebind.trans (.leave call.returns (.ref ?_))
    show cell < (state.cells.set cell _).size
    rw [Cells.size_set]
    exact hcell
  | @valueCall call args rest receiver notSuper notSelf static count direct taken =>
    obtain ⟨hreceiver, hargs⟩ := admits_of_call hstate taken
    have hpop := (State.Follows.popMany taken).trans (.pop rfl)
    exact hpop.trans (.leave call.returns (.methodCall hreceiver direct call.name hargs))
  | new className => exact .pushNew (.of_operands rfl rfl nofun)
  | localName slot name => exact .operation (.recordName slot.toNat name) nofun nofun
  | returnVoid done => exact .refl state

/-- Every state of a run follows the initial state by operations. -/
theorem Visits.follows (h : Visits body options executed state) :
    State.Follows (.initial body.parameters) state := by
  have hfirst := State.regular_initial body.parameters
  refine execute_induction (P := State.Follows (.initial body.parameters)) ?_ h.reached (.refl _)
  intro instruction later next htransition hlater
  exact hlater.trans (htransition.follows (hlater.regular hfirst))

/-- **The states of a run are regular.** -/
theorem Visits.regular (h : Visits body options executed state) : state.Regular :=
  h.follows.regular (State.regular_initial body.parameters)

end Machine

/-- **Operations keep a state well-formed, and a run is made of operations.** Let any sequence of
operations be given, to an initial state, cells that exist and values that mention no others. Then
in the state that it leads to, every cell that is mentioned at any depth exists, no cell holds a
bare reference, and no value stands for a reference. Every state of a run is reached by such a
sequence, and no call or field read in it, at any depth, has a bare reference as its receiver. -/
theorem State.cells_exist_of_performs :
    (∀ parameters operations state, State.Performs (.initial parameters) operations state →
        (∀ value, state.Holds value → ∀ cell, Value.Occurs (.ref cell) value →
          cell < state.cells.size ∧ (state.cells.get? cell).isSome) ∧
        (∀ cell < state.cells.size, (state.cells.content cell).isRef = false) ∧
        ∀ value, state.Holds value → (state.cells.resolve value).isRef = false) ∧
      ∀ body options executed state, Machine.Visits body options executed state →
        (∃ operations, State.Performs (.initial body.parameters) operations state) ∧
          ∀ value, state.Holds value →
            (∀ receiver name args, Value.Occurs (.methodCall receiver name args) value →
              receiver.isRef = false) ∧
            ∀ receiver name, Value.Occurs (.fieldRead receiver name) value →
              receiver.isRef = false := by
  constructor
  · intro parameters operations state hperforms
    have hstate : state.WellFormed := hperforms.wellFormed (State.wellFormed_initial parameters)
    refine ⟨?_, hstate.direct, ?_⟩
    · intro value hheld cell hoccurs
      have hcell := hstate.mentioned value hheld (.ref cell) hoccurs cell rfl
      exact ⟨hcell, Cells.isSome_get? hcell⟩
    · intro value hheld
      exact hstate.direct.isRef_resolve (hstate.mentioned value hheld)
  · intro body options executed state hvisits
    obtain ⟨operations, hperforms, -⟩ := hvisits.follows
    refine ⟨⟨operations, hperforms⟩, ?_⟩
    intro value hheld
    have hdirect := hvisits.regular.receivers value hheld
    constructor
    · intro receiver name args hoccurs
      exact hdirect (.methodCall receiver name args) hoccurs receiver rfl
    · intro receiver name hoccurs
      exact hdirect (.fieldRead receiver name) hoccurs receiver rfl

/-- A constructor that passes a new object to one of its own methods, and leaves a circle of cells
behind. -/
def selfLinked : Body where
  declaringClass := "Ring"
  superclass := "java.lang.Object"
  parameters := []
  instructions := [
    .loadLocal 0,
    .invoke ⟨.special, "java.lang.Object", "<init>", [], none⟩,
    .new "Node",
    .dup,
    .dup,
    .invoke ⟨.virtual, "Node", "link", [.reference "Node"], none⟩,
    .pop,
    .returnVoid]

/-- What the constructor leaves behind. -/
def selfLinkedState : State where
  cells := ⟨#[.methodCall (.new "Node") "link" [.ref 0]]⟩
  parameters := []
  locals := #[.this]
  stack := []
  assignments := []
  names := #[]

/-- Operations with the same circle. -/
def selfLinkedOperations : List State.Operation :=
  [.alloc (.new "Node"), .rebind 0 (.methodCall (.new "Node") "link" [.ref 0])]

theorem State.cells_exist_of_performs_selfLinked :
    (State.Performs (.initial []) selfLinkedOperations selfLinkedState ∧
      (∀ value, selfLinkedState.Holds value → ∀ cell, Value.Occurs (.ref cell) value →
        cell < 1 ∧ (selfLinkedState.cells.get? cell).isSome) ∧
      (∀ cell < 1, (selfLinkedState.cells.content cell).isRef = false) ∧
      ∀ value, selfLinkedState.Holds value →
        (selfLinkedState.cells.resolve value).isRef = false) ∧
      Machine.Visits selfLinked {} selfLinked.instructions selfLinkedState ∧
        (∃ operations, State.Performs (.initial []) operations selfLinkedState) ∧
          ∀ value, selfLinkedState.Holds value →
            (∀ receiver name args, Value.Occurs (.methodCall receiver name args) value →
              receiver.isRef = false) ∧
            ∀ receiver name, Value.Occurs (.fieldRead receiver name) value →
              receiver.isRef = false := by
  have hnew : ∀ bound, Value.Scoped bound (.new "Node") := fun bound =>
    (Value.scoped_iff_operands rfl).2 nofun
  have hcall : Value.Scoped 1 (.methodCall (.new "Node") "link" [.ref 0]) := by
    refine (Value.scoped_iff_operands rfl).2 ?_
    intro operand mem
    rcases List.mem_cons.1 mem with rfl | mem
    · exact hnew 1
    · rw [List.mem_singleton.1 mem]
      exact Value.scoped_ref.2 Nat.one_pos
  have hperforms : State.Performs (.initial []) selfLinkedOperations selfLinkedState := by
    refine .next ⟨?_, nofun⟩ (.next ⟨?_, ?_⟩ (.done _))
    · intro value hmem
      rw [List.mem_singleton.1 hmem]
      exact hnew _
    · intro value hmem
      rw [List.mem_singleton.1 hmem]
      exact hcall
    · intro cell hmem
      rw [List.mem_singleton.1 hmem]
      exact Nat.one_pos
  have hvisits : Machine.Visits selfLinked {} selfLinked.instructions selfLinkedState := by
    refine ⟨by decide, List.prefix_rfl, by decide, ?_⟩
    with_unfolding_all rfl
  exact ⟨⟨hperforms, State.cells_exist_of_performs.1 [] selfLinkedOperations _ hperforms⟩, hvisits,
    State.cells_exist_of_performs.2 selfLinked {} _ _ hvisits⟩

end FieldFlow
