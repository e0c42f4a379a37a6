import FieldFlow.Proofs.Machine.WellFormed
import FieldFlow.Proofs.Value.Frame

/-!
# The flow of cells

Which cells an instruction may lead to from the entries that it leaves on the stack, and which
values it cannot have changed.

## Main Definitions

* `Machine.Flow`: the entries that an instruction takes and makes, and the one cell that it changes
* `State.Settled`: a value that leads to no cell to which the stack refers

## Main Statements

* `Machine.Transition.flow`: every instruction has a flow
* `Machine.Flow.settled`: an instruction does not change settled values, and they stay settled
* `Machine.Flow.not_reaches`: what is kept apart from the entries that are taken is kept apart from
  those that are made

## Design Notes

An instruction changes the content of at most one cell, and that cell is new or is referred to by an
entry that it takes from the stack. All that is proved about sharing is proved from the flow, so the
rules of the machine are gone through only once.
-/

namespace FieldFlow

/-- The object under construction is at the bottom of the chain of receivers, without any cell. -/
def Value.IsOwn (value : Value) : Prop :=
  value.receiverRoot = .this

theorem Value.not_isOwn_of_isRef {cell : CellId} : ¬ (Value.ref cell).IsOwn :=
  nofun

namespace State

variable {state : State} {taken : List Value} {cell : CellId}

/-- The value leads to no cell to which an entry of the stack refers. -/
def Settled (state : State) (value : Value) : Prop :=
  ∀ cell, .ref cell ∈ state.stack → ¬ state.cells.Reaches value (.ref cell)

/-- One of the given entries, or a local slot, leads to the cell. -/
def Supplies (state : State) (taken : List Value) (cell : CellId) : Prop :=
  ∃ origin, (origin ∈ taken ∨ origin ∈ state.locals) ∧ state.cells.Reaches origin (.ref cell)

theorem Supplies.of_taken {origin : Value} (hmem : origin ∈ taken)
    (hreach : state.cells.Reaches origin (.ref cell)) : state.Supplies taken cell :=
  ⟨origin, .inl hmem, hreach⟩

end State

namespace Machine

/-- The lowest of the entries, if there are any, is built on the object under construction. -/
def EndsOwn (entries : List Value) : Prop :=
  ∀ lowest ∈ entries.getLast?, lowest.IsOwn

/-- The entries that an instruction takes from the stack and makes in their place, and the cell that
it changes. An instruction that changes none is said to change the next one to be allocated. -/
structure Flow (state next : State) (taken made rest : List Value) (changed : CellId) : Prop where
  before : state.stack = taken ++ rest
  after : next.stack = made ++ rest
  locals : next.locals = state.locals
  others : ∀ other, other ≠ changed → next.cells.content other = state.cells.content other
  held : changed = state.cells.size ∨ .ref changed ∈ taken
  refs : ∀ cell, .ref cell ∈ made → cell = state.cells.size ∨ .ref cell ∈ taken
  /-- What was made leads to nothing but what was taken. -/
  origin : ∀ source, source ∈ made ∨ source = next.cells.content changed →
    ∀ cell, state.cells.Reaches source (.ref cell) → cell = changed ∨ state.Supplies taken cell
  /-- Only from an entry that is built on the object under construction, or from a slot, another
  such entry is made. -/
  own : ∀ entry ∈ made, entry.IsOwn → (∀ cell, .ref cell ∉ made) ∧ EndsOwn taken

variable {context : Context} {instruction : Instruction} {state next : State}
variable {taken made rest args : List Value} {value : Value} {changed : CellId}

/-- A node over entries that were taken leads to nothing else. -/
theorem supplies_of_operands (direct : value.isRef = false)
    (hoperands : ∀ operand ∈ value.operands, ∃ origin, (origin ∈ taken ∨ origin ∈ state.locals) ∧
      state.cells.Reaches origin operand) :
    ∀ cell, state.cells.Reaches value (.ref cell) → state.Supplies taken cell := by
  intro cell hreach
  obtain ⟨operand, mem, hreach⟩ := hreach.exists_operand direct
  obtain ⟨origin, hmem, horigin⟩ := hoperands operand mem
  exact ⟨origin, hmem, horigin.trans hreach⟩

/-- A value without operands leads to nothing, whatever is taken. -/
theorem supplies_of_leaf (direct : value.isRef = false) (hnone : value.operands = []) :
    ∀ cell, state.cells.Reaches value (.ref cell) → state.Supplies taken cell := by
  refine supplies_of_operands direct ?_
  rw [hnone]
  nofun

/-! ### Flows of single steps -/

namespace Flow

/-- Entries may be made without a change to the cells. -/
theorem keep (before : state.stack = taken ++ rest) (after : next.stack = made ++ rest)
    (cells : next.cells = state.cells) (locals : next.locals = state.locals)
    (refs : ∀ cell, .ref cell ∈ made → .ref cell ∈ taken)
    (supplied : ∀ entry ∈ made, ∀ cell, state.cells.Reaches entry (.ref cell) →
      state.Supplies taken cell)
    (own : ∀ entry ∈ made, entry.IsOwn → (∀ cell, .ref cell ∉ made) ∧ EndsOwn taken) :
    Flow state next taken made rest state.cells.size where
  before := before
  after := after
  locals := locals
  others := by
    intro other _
    rw [cells]
  held := .inl rfl
  refs := fun cell hmem => .inr (refs cell hmem)
  origin := by
    rintro source (hmem | rfl) cell hreach
    · exact .inr (supplied source hmem cell hreach)
    · rw [cells, Cells.content_of_size_le (Nat.le_refl _)] at hreach
      cases hreach.eq_of_size_le (Nat.le_refl _)
      exact .inl rfl
  own := own

/-- Entries may be dropped. -/
theorem drop (before : state.stack = taken ++ rest) (after : next.stack = rest)
    (cells : next.cells = state.cells) (locals : next.locals = state.locals) :
    Flow state next taken [] rest state.cells.size :=
  keep before after cells locals nofun nofun nofun

/-- A value may take the place of others that lead to everything that it leads to. -/
theorem literal (before : state.stack = taken ++ rest) (direct : value.isRef = false)
    (supplied : ∀ cell, state.cells.Reaches value (.ref cell) → state.Supplies taken cell)
    (own : value.IsOwn → EndsOwn taken) :
    Flow state ({ state with stack := rest }.pushLiteral value) taken [value] rest
      state.cells.size := by
  have hrefs : ∀ cell, .ref cell ∉ [value] := by
    intro cell hmem
    rw [← List.mem_singleton.1 hmem] at direct
    cases direct
  refine keep before rfl rfl rfl ?_ ?_ ?_
  · intro cell hmem
    exact absurd hmem (hrefs cell)
  · intro entry hmem
    rw [List.mem_singleton.1 hmem]
    exact supplied
  · intro entry hmem hown
    rw [List.mem_singleton.1 hmem] at hown
    exact ⟨hrefs, own hown⟩

/-- A value may also be put into a new cell. -/
theorem fresh (before : state.stack = taken ++ rest)
    (supplied : ∀ cell, state.cells.Reaches (state.cells.resolve value) (.ref cell) →
      state.Supplies taken cell) :
    Flow state (({ state with stack := rest }.alloc value).2.pushLiteral (.ref state.cells.size))
      taken [.ref state.cells.size] rest state.cells.size where
  before := before
  after := rfl
  locals := rfl
  others := by
    intro other hother
    show (state.cells.alloc value).2.content other = state.cells.content other
    by_cases hold : other < state.cells.size
    · exact Cells.content_alloc_of_lt hold value
    · have hbeyond : state.cells.size + 1 ≤ other :=
        Nat.lt_of_le_of_ne (Nat.not_lt.1 hold) (Ne.symm hother)
      rw [Cells.content_of_size_le (Nat.not_lt.1 hold), Cells.content_of_size_le]
      rw [Cells.size_alloc]
      exact hbeyond
  held := .inl rfl
  refs := by
    intro cell hmem
    cases List.mem_singleton.1 hmem
    exact .inl rfl
  origin := by
    rintro source (hmem | rfl) cell hreach
    · rw [List.mem_singleton.1 hmem] at hreach
      cases hreach.eq_of_size_le (Nat.le_refl _)
      exact .inl rfl
    · have hcontent : (state.cells.alloc value).2.content state.cells.size =
          state.cells.resolve value := Cells.content_alloc_self value
      exact .inr (supplied cell (hcontent ▸ hreach))
  own := by
    intro entry hmem hown
    rw [List.mem_singleton.1 hmem] at hown
    exact absurd hown Value.not_isOwn_of_isRef

/-- Whether a value is put behind a cell or not, it takes the place of others. -/
theorem push (before : state.stack = taken ++ rest) (direct : value.isRef = false)
    (isReference : Bool)
    (supplied : ∀ cell, state.cells.Reaches value (.ref cell) → state.Supplies taken cell)
    (own : value.IsOwn → EndsOwn taken) :
    ∃ made, made.length ≤ 1 ∧
      Flow state ({ state with stack := rest }.push isReference value) taken made rest
        state.cells.size := by
  rw [State.push]
  split
  · refine ⟨[.ref state.cells.size], Nat.le_refl _, fresh before ?_⟩
    rw [Cells.resolve_of_isRef_eq_false direct]
    exact supplied
  · exact ⟨[value], Nat.le_refl _, literal before direct supplied own⟩

/-- A value without operands is pushed without taking anything. -/
theorem push_leaf (state : State) (value : Value) (direct : value.isRef = false)
    (hnone : value.operands = []) (foreign : ¬ value.IsOwn) (isReference : Bool) :
    ∃ made, made.length ≤ 1 ∧
      Flow state (state.push isReference value) [] made state.stack state.cells.size :=
  push rfl direct isReference (supplies_of_leaf direct hnone) fun own => absurd own foreign

/-- The result of a call is made, unless the method is void. -/
theorem leave (before : state.stack = taken ++ rest) (direct : value.isRef = false)
    (returns : Option Kind)
    (supplied : ∀ cell, state.cells.Reaches value (.ref cell) → state.Supplies taken cell)
    (own : value.IsOwn → EndsOwn taken) :
    ∃ made, made.length ≤ 1 ∧
      Flow state (leave returns value { state with stack := rest }) taken made rest
        state.cells.size := by
  cases returns with
  | none => exact ⟨[], Nat.zero_le _, drop before rfl rfl rfl⟩
  | some kind => exact push before direct kind.isReference supplied own

/-- A call through a reference changes the cell to which it refers. -/
theorem call {cell : CellId} (before : state.stack = args.reverse ++ .ref cell :: rest)
    (hcell : cell < state.cells.size) (name : String)
    (after : next.stack = made ++ rest) (locals : next.locals = state.locals)
    (cells : next.cells =
      state.cells.set cell (.methodCall (state.cells.content cell) name args))
    (hmade : ∀ entry ∈ made, entry = .ref cell) :
    Flow state next (args.reverse ++ [.ref cell]) made rest cell where
  before := by
    rw [before, List.append_assoc]
    rfl
  after := after
  locals := locals
  others := by
    intro other hother
    rw [cells]
    exact Cells.content_set_of_ne hother _
  held := .inr (List.mem_append_right _ List.mem_cons_self)
  refs := by
    intro other hmem
    cases hmade _ hmem
    exact .inr (List.mem_append_right _ List.mem_cons_self)
  origin := by
    rintro source (hmem | rfl) other hreach
    · rw [hmade source hmem] at hreach
      exact .inr (.of_taken (List.mem_append_right _ List.mem_cons_self) hreach)
    · right
      rw [cells, Cells.content_set_self hcell] at hreach
      refine supplies_of_operands rfl ?_ other hreach
      intro operand mem
      rcases List.mem_cons.1 mem with rfl | mem
      · refine ⟨.ref cell, .inl (List.mem_append_right _ List.mem_cons_self), ?_⟩
        exact .head (.content cell) (.refl _)
      · refine ⟨operand, .inl (List.mem_append_left _ ?_), .refl _⟩
        exact List.mem_reverse.2 mem
  own := by
    intro entry hmem hown
    rw [hmade entry hmem] at hown
    exact absurd hown Value.not_isOwn_of_isRef

end Flow

/-- **Every instruction has a flow.** Only duplication makes more than one entry. -/
theorem Transition.flow (h : Transition context state instruction next) (hstate : state.Regular) :
    ∃ taken made rest changed, Flow state next taken made rest changed ∧
      (instruction ≠ .dup → made.length ≤ 1) := by
  cases h with
  | pushNull =>
    exact ⟨[], _, state.stack, _, .fresh rfl (supplies_of_leaf rfl rfl), fun _ => Nat.le_refl _⟩
  | pushInt value =>
    exact ⟨[], _, state.stack, _, .literal rfl rfl (supplies_of_leaf rfl rfl) nofun,
      fun _ => Nat.le_refl _⟩
  | pushConst constant =>
    obtain ⟨made, hlength, hflow⟩ :=
      Flow.push_leaf state (.constant constant) rfl rfl nofun constant.isReference
    exact ⟨[], made, state.stack, _, hflow, fun _ => hlength⟩
  | @pop top rest taken =>
    exact ⟨[top], [], rest, _, .drop taken rfl rfl rfl, fun _ => Nat.zero_le _⟩
  | @pop2 top second rest taken =>
    exact ⟨[top, second], [], rest, _, .drop taken rfl rfl rfl, fun _ => Nat.zero_le _⟩
  | @dup top rest taken =>
    have hmem : ∀ {entry : Value}, entry ∈ [top, top] → entry = top := by simp
    refine ⟨[top], [top, top], rest, _, .keep taken ?_ rfl rfl ?_ ?_ ?_, nofun⟩
    · exact congrArg (List.cons top) taken
    · intro cell hcell
      rw [hmem hcell]
      exact List.mem_cons_self
    · intro entry hentry cell hreach
      rw [hmem hentry] at hreach
      exact .of_taken List.mem_cons_self hreach
    · intro entry hentry hown
      rw [hmem hentry] at hown
      refine ⟨?_, ?_⟩
      · intro cell hcell
        rw [← hmem hcell] at hown
        exact Value.not_isOwn_of_isRef hown
      · intro lowest hlowest
        cases hlowest
        exact hown
  | @binaryOp operator left right rest taken =>
    refine ⟨[right, left], _, rest, _, .literal taken rfl ?_ nofun, fun _ => Nat.le_refl _⟩
    refine supplies_of_operands rfl ?_
    intro operand mem
    have hoperands : operand ∈ [left, right] := mem
    refine ⟨operand, .inl ?_, .refl _⟩
    simpa [or_comm] using hoperands
  | @loadCell slot cell held =>
    refine ⟨[], _, state.stack, _, .fresh rfl ?_, fun _ => Nat.le_refl _⟩
    intro other hreach
    exact ⟨.ref cell, .inr (Array.mem_of_getElem? held), .head (.content cell) hreach⟩
  | @loadValue slot value held direct =>
    refine ⟨[], _, state.stack, _, .literal rfl direct ?_ nofun, fun _ => Nat.le_refl _⟩
    intro other hreach
    exact ⟨value, .inr (Array.mem_of_getElem? held), hreach⟩
  | getStatic owner name kind =>
    obtain ⟨made, hlength, hflow⟩ :=
      Flow.push_leaf state (.staticField owner name) rfl rfl nofun kind.isReference
    exact ⟨[], made, state.stack, _, hflow, fun _ => hlength⟩
  | @getField name kind receiver rest taken =>
    have hsupplied : ∀ cell,
        state.cells.Reaches (.fieldRead (state.cells.resolve receiver) name) (.ref cell) →
          state.Supplies [receiver] cell := by
      refine supplies_of_operands rfl ?_
      intro operand mem
      rw [List.mem_singleton.1 mem]
      exact ⟨receiver, .inl List.mem_cons_self, Verdict.reaches_resolve receiver⟩
    obtain ⟨made, hlength, hflow⟩ := Flow.push taken rfl kind.isReference hsupplied nofun
    exact ⟨[receiver], made, rest, _, hflow, fun _ => hlength⟩
  | @store field value receiver rest taken own fresh =>
    exact ⟨[value, receiver], [], rest, _, .drop taken rfl rfl rfl, fun _ => Nat.zero_le _⟩
  | @ignore field value receiver rest taken foreign =>
    exact ⟨[value, receiver], [], rest, _, .drop taken rfl rfl rfl, fun _ => Nat.zero_le _⟩
  | @superCall call receiver rest delegates noArgs taken =>
    exact ⟨[receiver], [], rest, _, .drop taken rfl rfl rfl, fun _ => Nat.zero_le _⟩
  | @staticCall call args rest notSuper notSelf static count taken =>
    have hsupplied : ∀ cell,
        state.cells.Reaches (.staticCall call.owner call.name args) (.ref cell) →
          state.Supplies args.reverse cell := by
      refine supplies_of_operands rfl ?_
      intro operand mem
      exact ⟨operand, .inl (List.mem_reverse.2 mem), .refl _⟩
    obtain ⟨made, hlength, hflow⟩ := Flow.leave taken rfl call.returns hsupplied nofun
    exact ⟨args.reverse, made, rest, _, hflow, fun _ => hlength⟩
  | @cellCall call args rest cell notSuper notSelf static count taken =>
    obtain ⟨hreceiver, -⟩ := admits_of_call hstate taken
    have hcell : cell < state.cells.size := Value.scoped_ref.1 hreceiver.scope
    cases hreturns : call.returns with
    | none =>
      exact ⟨_, [], rest, cell, .call taken hcell call.name rfl rfl rfl nofun,
        fun _ => Nat.zero_le _⟩
    | some kind =>
      refine ⟨_, [.ref cell], rest, cell, .call taken hcell call.name ?_ ?_ ?_ ?_,
        fun _ => Nat.le_refl _⟩
      · rw [leave, State.push, Value.isRef, Bool.not_true, Bool.and_false]
        rfl
      · rw [leave, State.push, Value.isRef, Bool.not_true, Bool.and_false]
        rfl
      · rw [leave, State.push, Value.isRef, Bool.not_true, Bool.and_false]
        rfl
      · intro entry hentry
        exact List.mem_singleton.1 hentry
  | @valueCall call args rest receiver notSuper notSelf static count direct taken =>
    have hbefore : state.stack = (args.reverse ++ [receiver]) ++ rest := by
      rw [taken, List.append_assoc]
      rfl
    have hsupplied : ∀ cell,
        state.cells.Reaches (.methodCall receiver call.name args) (.ref cell) →
          state.Supplies (args.reverse ++ [receiver]) cell := by
      refine supplies_of_operands rfl ?_
      intro operand mem
      refine ⟨operand, .inl ?_, .refl _⟩
      simpa [Value.operands, or_comm] using mem
    -- The call is built on the object under construction if its receiver is.
    have hown : (Value.methodCall receiver call.name args).IsOwn →
        EndsOwn (args.reverse ++ [receiver]) := by
      intro hown lowest hlowest
      rw [List.getLast?_concat] at hlowest
      cases hlowest
      exact hown
    obtain ⟨made, hlength, hflow⟩ := Flow.leave hbefore rfl call.returns hsupplied hown
    exact ⟨_, made, rest, _, hflow, fun _ => hlength⟩
  | new className =>
    exact ⟨[], _, state.stack, _, .fresh rfl (supplies_of_leaf rfl rfl), fun _ => Nat.le_refl _⟩
  | localName slot name =>
    refine ⟨[], [], state.stack, _, .drop rfl ?_ (state.cells_recordName _ _) ?_,
      fun _ => Nat.zero_le _⟩
    · rw [State.recordName]
      split <;> rfl
    · rw [State.recordName]
      split <;> rfl
  | returnVoid done =>
    exact ⟨[], [], state.stack, _, .drop rfl rfl rfl rfl, fun _ => Nat.zero_le _⟩

/-! ### What an instruction cannot change -/

namespace Flow

/-- The changed cell is not one that a settled value leads to. -/
theorem agreeFrom (h : Flow state next taken made rest changed) (hstate : state.WellFormed)
    (hscoped : value.Scoped state.cells.size)
    (htaken : .ref changed ∈ taken → ¬ state.cells.Reaches value (.ref changed)) :
    state.cells.AgreeFrom next.cells value := by
  refine Cells.agreeFrom_of_change h.others ?_
  intro hreach
  rcases h.held with heq | hmem
  · have hlt := Value.scoped_ref.1 (hstate.scoped_of_reaches hscoped hreach)
    rw [heq] at hlt
    exact Nat.lt_irrefl _ hlt
  · exact htaken hmem hreach

/-- **An instruction does not change a settled value, and the value stays settled.** -/
theorem settled (h : Flow state next taken made rest changed) (hstate : state.WellFormed)
    (hscoped : value.Scoped state.cells.size) (hsettled : state.Settled value) :
    state.cells.AgreeFrom next.cells value ∧ next.Settled value := by
  have htaken : ∀ cell, .ref cell ∈ taken → ¬ state.cells.Reaches value (.ref cell) := by
    intro cell hmem
    apply hsettled cell
    rw [h.before]
    exact List.mem_append_left _ hmem
  have hagree := h.agreeFrom hstate hscoped (htaken changed)
  refine ⟨hagree, ?_⟩
  intro cell hmem hreach
  rw [hagree.reaches_iff] at hreach
  rw [h.after] at hmem
  rcases List.mem_append.1 hmem with hmade | hrest
  · rcases h.refs cell hmade with heq | hmem
    · have hlt := Value.scoped_ref.1 (hstate.scoped_of_reaches hscoped hreach)
      rw [heq] at hlt
      exact Nat.lt_irrefl _ hlt
    · exact htaken cell hmem hreach
  · refine hsettled cell ?_ hreach
    rw [h.before]
    exact List.mem_append_right _ hrest

/-- **What the taken entries and the slots do not lead to, the made entries do not.** Neither does
any other value that did not before. -/
theorem not_reaches (h : Flow state next taken made rest changed) {cell : CellId}
    (hcell : cell < state.cells.size)
    (hlocals : ∀ held ∈ state.locals, ¬ state.cells.Reaches held (.ref cell))
    (htaken : ∀ entry ∈ taken, ¬ state.cells.Reaches entry (.ref cell))
    (hvalue : value ∈ made ∨ ¬ state.cells.Reaches value (.ref cell)) :
    ¬ next.cells.Reaches value (.ref cell) := by
  have hunsupplied : ¬ state.Supplies taken cell := by
    rintro ⟨origin, hmem | hmem, hreach⟩
    · exact htaken origin hmem hreach
    · exact hlocals origin hmem hreach
  have hne : cell ≠ changed := by
    rintro rfl
    rcases h.held with heq | hmem
    · rw [heq] at hcell
      exact Nat.lt_irrefl _ hcell
    · exact htaken _ hmem (.refl _)
  -- Nothing that was made leads to the cell.
  have hmade : ∀ source, source ∈ made ∨ source = next.cells.content changed →
      ¬ state.cells.Reaches source (.ref cell) := by
    intro source hsource hreach
    rcases h.origin source hsource cell hreach with heq | hsupplied
    · exact hne heq
    · exact hunsupplied hsupplied
  intro hreach
  rcases Cells.reaches_of_change h.others hreach with hbefore | ⟨-, hnew⟩
  · rcases hvalue with hmem | hvalue
    · exact hmade value (.inl hmem) hbefore
    · exact hvalue hbefore
  · exact hmade _ (.inr rfl) hnew

end Flow

end Machine

end FieldFlow
