import FieldFlow.Proofs.State.Operations
import FieldFlow.Proofs.Value.Root
import Mathlib.Logic.Relation

/-!
# The walk to the object under construction

The loop that goes from a reference to the content of its cell and from a call to its receiver, and
gives up at a cell that it has seen before. It ends on all contents of cells, also on those that go
round in a circle, and what it answers is whether the chain of the value comes to the object under
construction.

## Main Definitions

* `Cells.Leads`: one step of the chain of a value
* `Walk`, `Walk.turn`: the loop between two turns, and one turn
* `Walk.Ends`: the number of turns and the answer of the loop
* `Walk.remaining`: the turns that are left at most

## Main Statements

* `Cells.not_leadsToThis_of_circle`: a chain that returns to its beginning never comes to an end
* `Walk.Ends.result_iff`: the answer of the loop
* `Walk.exists_ends`: the loop ends
* `Cells.denotesThis_ends`: the loop and the search over sets of cells, and what both find

## Design Notes

The chain goes on in one way only. So a cell that the loop meets again is on a circle, from which
nothing else can be reached. The turns are counted by the calls that lie ahead: those of the current
value and those in the cells that have not been seen, each of which is entered once at most.
-/

namespace FieldFlow

/-- The number of calls on the way to the innermost receiver. -/
def Value.calls : Value → Nat
  | methodCall receiver _ _ => receiver.calls + 1
  | _ => 0

/-! ### The chain of a value -/

namespace Cells

variable {cells : Cells} {value next other : Value}

/-- The chain goes on from a reference with the content of its cell, and from a call with its
receiver. -/
inductive Leads (cells : Cells) : Value → Value → Prop
  | content (cell : CellId) : Leads cells (.ref cell) (cells.content cell)
  | receiver (receiver : Value) (name : String) (args : List Value) :
      Leads cells (.methodCall receiver name args) receiver

/-- The chain of the value comes to the object under construction. -/
def LeadsToThis (cells : Cells) (value : Value) : Prop :=
  Relation.ReflTransGen cells.Leads value .this

/-- A chain goes on in one way. -/
theorem Leads.unique (h : cells.Leads value next) (h' : cells.Leads value other) :
    next = other := by
  cases h <;> cases h' <;> rfl

/-- Where a chain comes to is where it comes to from its second value. -/
theorem Leads.leadsToThis_iff (h : cells.Leads value next) :
    cells.LeadsToThis value ↔ cells.LeadsToThis next := by
  constructor
  · intro hthis
    rcases Relation.ReflTransGen.cases_head hthis with rfl | ⟨other, hother, hthis⟩
    · cases h
    · rw [h.unique hother]
      exact hthis
  · exact Relation.ReflTransGen.head h

/-- A chain that ends at once has its end in its first value. -/
theorem leadsToThis_iff_of_isRoot (h : value.isRoot = true) :
    cells.LeadsToThis value ↔ value = .this := by
  constructor
  · intro hthis
    rcases Relation.ReflTransGen.cases_head hthis with heq | ⟨next, hstep, -⟩
    · exact heq
    · cases hstep <;> cases h
  · rintro rfl
    exact Relation.ReflTransGen.refl

/-- **A chain that returns to its beginning comes to no end.** -/
theorem not_leadsToThis_of_circle (h : Relation.TransGen cells.Leads value value) :
    ¬ cells.LeadsToThis value := by
  intro hthis
  -- With each step the circle turns too, until it would go through the end of the chain.
  induction hthis using Relation.ReflTransGen.head_induction_on with
  | refl =>
    obtain ⟨next, hstep, -⟩ := Relation.TransGen.head'_iff.1 h
    cases hstep
  | head hstep _ ih =>
    obtain ⟨next, hfirst, hrest⟩ := Relation.TransGen.head'_iff.1 h
    rw [← hstep.unique hfirst] at hrest
    exact ih (Relation.TransGen.tail' hrest hstep)

theorem RootedAt.leads {passed : Nat} {root : Value} (h : cells.RootedAt passed value root) :
    Relation.ReflTransGen cells.Leads value root := by
  induction h with
  | root _ => exact Relation.ReflTransGen.refl
  | cell _ ih => exact Relation.ReflTransGen.head (.content _) ih
  | receiver name args _ ih => exact Relation.ReflTransGen.head (.receiver _ name args) ih

/-- The search over sets of cells finds out whether the chain of a value comes to the object under
construction. -/
theorem denotesThis_iff_leadsToThis :
    cells.denotesThis value = true ↔ cells.LeadsToThis value := by
  rw [denotesThis_iff]
  constructor
  · rintro ⟨passed, h⟩
    exact h.leads
  · intro hthis
    induction hthis using Relation.ReflTransGen.head_induction_on with
    | refl => exact ⟨0, .root rfl⟩
    | head hstep _ ih =>
      obtain ⟨passed, h⟩ := ih
      cases hstep with
      | content cell => exact ⟨passed + 1, .cell h⟩
      | receiver receiver name args => exact ⟨passed, h.receiver name args⟩

/-- The contents of cells mention only existing cells. -/
def Closed (cells : Cells) : Prop :=
  ∀ cell < cells.size, (cells.content cell).Scoped cells.size

theorem Closed.scoped_of_leads (hcells : cells.Closed) (hscoped : value.Scoped cells.size)
    (h : cells.Leads value next) : next.Scoped cells.size := by
  cases h with
  | content cell => exact hcells cell (Value.scoped_ref.1 hscoped)
  | receiver receiver name args => exact hscoped.operand List.mem_cons_self

/-- The calls in the contents of the cells below a bound, and one for each of these cells. Cells
that have been seen are left out. -/
def callsUnseen (cells : Cells) (seen : List CellId) : Nat → Nat
  | 0 => 0
  | bound + 1 =>
    callsUnseen cells seen bound +
      if bound ∈ seen then 0 else (cells.content bound).calls + 1

/-- A cell that is seen for the first time is left out from then on. -/
theorem callsUnseen_cons {seen : List CellId} {cell : CellId} (hunseen : cell ∉ seen)
    (bound : Nat) :
    cells.callsUnseen seen bound = cells.callsUnseen (cell :: seen) bound +
      if cell < bound then (cells.content cell).calls + 1 else 0 := by
  induction bound with
  | zero => rfl
  | succ bound ih =>
    rw [callsUnseen, callsUnseen, ih]
    by_cases hlast : cell = bound
    · subst hlast
      rw [if_neg hunseen, if_pos List.mem_cons_self, if_neg (Nat.lt_irrefl cell),
        if_pos (Nat.lt_succ_self cell)]
    · have hmem : bound ∈ cell :: seen ↔ bound ∈ seen := by simp [Ne.symm hlast]
      have hlt : cell < bound + 1 ↔ cell < bound := by
        rw [Nat.lt_succ_iff_lt_or_eq, or_iff_left hlast]
      simp only [hmem, hlt]
      omega

end Cells

/-! ### The loop -/

/-- The loop between two turns: the cells that it has seen, and the value that it has come to. -/
structure Walk where
  seen : List CellId
  current : Value

/-- What a turn comes to. -/
inductive Walk.Turn where
  | answer (result : Bool)
  | goOn (next : Walk)
  /-- There is no cell to go on with. -/
  | missing (cell : CellId)

namespace Walk

variable {cells : Cells} {walk next : Walk} {turns : Nat} {result : Bool}

/-- The loop before its first turn. -/
def start (value : Value) : Walk := ⟨[], value⟩

/-- One turn of the loop. -/
def turn (cells : Cells) (walk : Walk) : Turn :=
  match walk.current with
  | .this => .answer true
  | .ref cell =>
    if cell ∈ walk.seen then .answer false
    else
      match cells.get? cell with
      | some content => .goOn ⟨cell :: walk.seen, content⟩
      | none => .missing cell
  | .methodCall receiver _ _ => .goOn ⟨walk.seen, receiver⟩
  | _ => .answer false

/-- The loop ends after the given number of turns with the given answer. -/
inductive Ends (cells : Cells) : Walk → Nat → Bool → Prop
  | answer {walk : Walk} {result : Bool} (h : walk.turn cells = .answer result) :
      Ends cells walk 1 result
  | goOn {walk next : Walk} {turns : Nat} {result : Bool} (h : walk.turn cells = .goOn next)
      (later : Ends cells next turns result) : Ends cells walk (turns + 1) result

/-- The calls that lie ahead, and one for each cell that has not been seen. -/
def remaining (cells : Cells) (walk : Walk) : Nat :=
  walk.current.calls + cells.callsUnseen walk.seen cells.size

/-! ### One turn -/

/-- The loop answers at the end of the chain, and at a cell that it has seen. -/
theorem turn_eq_answer (h : walk.turn cells = .answer result) :
    walk.current.isRoot = true ∧ (result = true ↔ walk.current = .this) ∨
      ∃ cell ∈ walk.seen, walk.current = .ref cell ∧ result = false := by
  obtain ⟨seen, current⟩ := walk
  cases current with
  | ref cell =>
    rw [turn] at h
    dsimp only at h
    split at h
    next hseen =>
      cases h
      exact .inr ⟨cell, hseen, rfl, rfl⟩
    next => split at h <;> cases h
  | methodCall receiver name args => cases h
  | _ =>
    cases h
    exact .inl ⟨rfl, by simp⟩

/-- The loop goes on at a call, and at a cell that it has not seen. -/
theorem turn_eq_goOn (h : walk.turn cells = .goOn next) :
    (∃ name args, walk.current = .methodCall next.current name args ∧ next.seen = walk.seen) ∨
      ∃ cell ∉ walk.seen, walk.current = .ref cell ∧ next.current = cells.content cell ∧
        next.seen = cell :: walk.seen := by
  obtain ⟨seen, current⟩ := walk
  cases current with
  | ref cell =>
    rw [turn] at h
    dsimp only at h
    split at h
    next => cases h
    next hunseen =>
      split at h
      next content hcontent =>
        cases h
        refine .inr ⟨cell, hunseen, rfl, ?_, rfl⟩
        rw [Cells.content, hcontent, Option.getD_some]
      next => cases h
  | methodCall receiver name args =>
    cases h
    exact .inl ⟨name, args, rfl, rfl⟩
  | _ => cases h

/-- The loop never comes to a cell that does not exist. -/
theorem turn_ne_missing (hscoped : walk.current.Scoped cells.size) (cell : CellId) :
    walk.turn cells ≠ .missing cell := by
  intro h
  obtain ⟨seen, current⟩ := walk
  cases current with
  | ref other =>
    have hother : other < cells.size := Value.scoped_ref.1 hscoped
    rw [turn] at h
    dsimp only at h
    rw [Cells.get?_of_lt hother] at h
    split at h <;> cases h
  | _ => cases h

/-- In going on, the loop takes a step of the chain. -/
theorem leads_of_goOn (h : walk.turn cells = .goOn next) :
    cells.Leads walk.current next.current := by
  rcases turn_eq_goOn h with ⟨name, args, hcurrent, -⟩ | ⟨cell, -, hcurrent, hcontent, -⟩
  · rw [hcurrent]
    exact .receiver next.current name args
  · rw [hcurrent, hcontent]
    exact .content cell

/-- A turn uses up one of the calls that lie ahead, or a cell that has not been seen. -/
theorem remaining_of_goOn (hscoped : walk.current.Scoped cells.size)
    (h : walk.turn cells = .goOn next) : next.remaining cells + 1 = walk.remaining cells := by
  rw [remaining, remaining]
  rcases turn_eq_goOn h with
    ⟨name, args, hcurrent, hseen⟩ | ⟨cell, hunseen, hcurrent, hcontent, hseen⟩
  · rw [hcurrent, hseen, Value.calls]
    omega
  · have hcalls : (Value.ref cell).calls = 0 := rfl
    rw [hcurrent] at hscoped
    rw [hcurrent, hseen, hcontent, hcalls, Cells.callsUnseen_cons hunseen,
      if_pos (Value.scoped_ref.1 hscoped)]
    omega

/-! ### The whole loop -/

/-- **The loop ends.** It takes no more turns than there are calls ahead and cells that it has not
seen, and one turn for the answer. -/
theorem exists_ends (hcells : cells.Closed) (walk : Walk)
    (hscoped : walk.current.Scoped cells.size) :
    ∃ turns ≤ walk.remaining cells + 1, ∃ result, walk.Ends cells turns result := by
  cases hturn : walk.turn cells with
  | answer result => exact ⟨1, Nat.le_add_left _ _, result, .answer hturn⟩
  | missing cell => exact absurd hturn (turn_ne_missing hscoped cell)
  | goOn next =>
    have hless : next.remaining cells + 1 = walk.remaining cells := remaining_of_goOn hscoped hturn
    have hnext := hcells.scoped_of_leads hscoped (leads_of_goOn hturn)
    obtain ⟨turns, hle, result, hends⟩ := exists_ends hcells next hnext
    exact ⟨turns + 1, by omega, result, .goOn hturn hends⟩
  termination_by walk.remaining cells

/-- **The loop answers whether the chain comes to the object under construction.** The invariant is
that the chain has come to the current value from every cell that the loop has seen. -/
theorem Ends.result_iff (h : walk.Ends cells turns result)
    (hseen : ∀ cell ∈ walk.seen, Relation.TransGen cells.Leads (.ref cell) walk.current) :
    result = true ↔ cells.LeadsToThis walk.current := by
  induction h with
  | @answer walk result h =>
    rcases turn_eq_answer h with ⟨hroot, hresult⟩ | ⟨cell, hmem, hcurrent, rfl⟩
    · rw [hresult, Cells.leadsToThis_iff_of_isRoot hroot]
    · have hcircle := hseen cell hmem
      rw [hcurrent] at hcircle ⊢
      simpa using Cells.not_leadsToThis_of_circle hcircle
  | @goOn walk next turns result h _ ih =>
    have hstep := leads_of_goOn h
    rw [hstep.leadsToThis_iff]
    refine ih fun cell hmem => ?_
    rcases turn_eq_goOn h with ⟨_, _, -, heq⟩ | ⟨last, -, hcurrent, -, heq⟩
    · rw [heq] at hmem
      exact (hseen cell hmem).tail hstep
    · rw [heq] at hmem
      rcases List.mem_cons.1 hmem with rfl | hmem
      · rw [← hcurrent]
        exact .single hstep
      · exact (hseen cell hmem).tail hstep

end Walk

/-- **The search for the object under construction ends, and it is exact.** Let all cells that are
mentioned exist, and their contents go round in circles or not. The loop ends with the answer of the
search over sets of cells. This is yes if and only if the object under construction is reached from
the value by steps from a reference to the content of its cell, and from a call to its receiver. -/
theorem Cells.denotesThis_ends {cells : Cells} {value : Value} (hcells : cells.Closed)
    (hscoped : value.Scoped cells.size) :
    (∃ turns ≤ (Walk.start value).remaining cells + 1,
        (Walk.start value).Ends cells turns (cells.denotesThis value)) ∧
      (cells.denotesThis value = true ↔ Relation.ReflTransGen cells.Leads value .this) := by
  refine ⟨?_, denotesThis_iff_leadsToThis⟩
  obtain ⟨turns, hturns, result, hends⟩ := Walk.exists_ends hcells (.start value) hscoped
  have hresult : result = cells.denotesThis value := by
    rw [Bool.eq_iff_iff, denotesThis_iff_leadsToThis]
    exact hends.result_iff nofun
  exact ⟨turns, hturns, hresult ▸ hends⟩

/-- Two cells whose chains go round in a circle, and one from which the chain comes to an end. -/
def Cells.circle : Cells :=
  ⟨#[.methodCall (.ref 1) "next" [], .methodCall (.ref 0) "next" [],
    .methodCall .this "link" [.ref 0]]⟩

/-- The loop finds the end of the one chain, and that the other has none. -/
theorem Cells.denotesThis_ends_circle :
    circle.Closed ∧
      ((Value.ref 0).Scoped circle.size ∧
        (∃ turns ≤ 7, (Walk.start (.ref 0)).Ends circle turns false) ∧
        ¬ Relation.ReflTransGen circle.Leads (.ref 0) .this) ∧
      ((Value.ref 2).Scoped circle.size ∧
        (∃ turns ≤ 7, (Walk.start (.ref 2)).Ends circle turns true) ∧
        Relation.ReflTransGen circle.Leads (.ref 2) .this) := by
  have hclosed : circle.Closed := by
    have href : ∀ cell < 3, (Value.ref cell).Scoped 3 := fun cell => Value.scoped_ref.2
    have hthis : Value.this.Scoped 3 := (Value.scoped_iff_operands rfl).2 nofun
    intro cell hcell
    match cell, hcell with
    | 0, _ =>
      exact (Value.scoped_iff_operands rfl).2 (List.forall_mem_singleton.2 (href 1 (by decide)))
    | 1, _ =>
      exact (Value.scoped_iff_operands rfl).2 (List.forall_mem_singleton.2 (href 0 (by decide)))
    | 2, _ =>
      refine (Value.scoped_iff_operands rfl).2 (List.forall_mem_cons.2 ⟨hthis, ?_⟩)
      exact List.forall_mem_singleton.2 (href 0 (by decide))
  have hround : circle.denotesThis (.ref 0) = false := by decide +kernel
  have hend : circle.denotesThis (.ref 2) = true := by decide +kernel
  have hfirst : (Value.ref 0).Scoped circle.size := Value.scoped_ref.2 (by decide)
  have hlast : (Value.ref 2).Scoped circle.size := Value.scoped_ref.2 (by decide)
  obtain ⟨hwalk, hleads⟩ := denotesThis_ends hclosed hfirst
  obtain ⟨hwalk', hleads'⟩ := denotesThis_ends hclosed hlast
  rw [hround] at hwalk hleads
  rw [hend] at hwalk' hleads'
  exact ⟨hclosed, ⟨hfirst, hwalk, by simpa using hleads⟩, hlast, hwalk', hleads'.1 rfl⟩

end FieldFlow
