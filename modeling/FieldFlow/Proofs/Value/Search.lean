import FieldFlow.Proofs.Value.Reach

/-!
# The search through shared nodes

A value lies in memory as a graph, in which operands may be shared. The search for parameters that
follows the pointers, and enters each cell and each shared operand once, finds what can be reached.

## Main Definitions

* `Placed`: a value and the addresses at which its nodes lie
* `Memory`: the nodes at all addresses, and the places of the contents of all cells
* `Memory.search`, `Memory.findsParameter`: the search for parameters

## Main Statements

* `Memory.not_reachesParameter_of_search`: a search that finds nothing has missed nothing
* `Cells.parameter_found_iff_reached`: the search over sets of cells and the search in memory both
  find exactly what can be reached

## Design Notes

Nodes that are equal may lie at different addresses, but nodes at one address are equal. Nothing
else is assumed of the addresses, so operands may be shared within a value, between values and
between cells in any way.

The pending list is what a recursive search has still to do on its way back: the remaining operands
of each node above the current one. With the operands of a node in front of the list, nodes are
entered depth first and from left to right. The search ends since each step takes a cell away from
the unvisited ones, or leaves these as they are and makes the pending values smaller.
-/

namespace FieldFlow

namespace Value

/-- The node at the end of a path, which gives the number of an operand for each step. -/
def part? : Value → List Nat → Option Value
  | value, [] => some value
  | value, index :: path => value.operands[index]?.bind (part? · path)

/-- Whether an operand is held through a pointer. Arguments are held by value. -/
def sharesOperand (value : Value) (index : Nat) : Bool :=
  match value with
  | methodCall _ _ _ => index == 0
  | fieldRead _ _ | binaryOp _ _ _ => true
  | _ => false

mutual

/-- The number of nodes of a value as it is written. Nodes that are shared count each time. -/
def nodes : Value → Nat
  | methodCall receiver _ args => receiver.nodes + nodesAll args + 1
  | staticCall _ _ args => nodesAll args + 1
  | fieldRead receiver _ => receiver.nodes + 1
  | binaryOp _ left right => left.nodes + right.nodes + 1
  | _ => 1

/-- The number of nodes of all values of a list. -/
def nodesAll : List Value → Nat
  | [] => 0
  | value :: values => value.nodes + nodesAll values

end

theorem nodes_eq (value : Value) : value.nodes = nodesAll value.operands + 1 := by
  cases value <;> simp [nodes, operands, nodesAll]

theorem nodesAll_append (values more : List Value) :
    nodesAll (values ++ more) = nodesAll values + nodesAll more := by
  induction values with
  | nil => exact (Nat.zero_add _).symm
  | cons value values ih =>
    rw [List.cons_append, nodesAll, nodesAll, ih, Nat.add_assoc]

end Value

/-! ### Values in memory -/

/-- A value whose nodes lie at addresses, each reached by a path from the top. -/
structure Placed {Address : Type} (node : Address → Value) where
  value : Value
  address : List Nat → Address
  node_address : ∀ path part, value.part? path = some part → node (address path) = part

/-- The nodes at all addresses, among them those of the contents of cells. -/
structure Memory (Address : Type) (cells : Cells) where
  node : Address → Value
  content : CellId → Placed node
  value_content : ∀ cell, (content cell).value = cells.content cell

variable {Address : Type} {cells : Cells}

namespace Placed

variable {node : Address → Value}

/-- The value lies at the address of the empty path. -/
theorem node_top (placed : Placed node) : node (placed.address []) = placed.value :=
  placed.node_address [] _ rfl

/-- The operand with a number, where it lies. -/
def operand (placed : Placed node) (index : Fin placed.value.operands.length) : Placed node where
  value := placed.value.operands[index]
  address path := placed.address (index :: path)
  node_address path part h := placed.node_address (index :: path) part <| by
    rw [Value.part?, List.getElem?_eq_getElem index.isLt]
    exact h

end Placed

/-! ### The search -/

/-- A value that a search has still to enter. -/
structure Pending {Address : Type} (node : Address → Value) extends Placed node where
  /-- Whether the search comes to the value through a pointer. -/
  isShared : Bool

namespace Pending

variable {node : Address → Value}

/-- The operands of a value, from left to right. -/
def operands (placed : Placed node) : List (Pending node) :=
  List.ofFn fun index => ⟨placed.operand index, placed.value.sharesOperand index⟩

/-- The values of a list. -/
def values (pending : List (Pending node)) : List Value :=
  pending.map (·.value)

/-- The addresses that have been seen, when the search enters a value. -/
def mark (current : Pending node) (seen : List Address) : List Address :=
  if current.isShared then current.address [] :: seen else seen

@[simp]
theorem values_cons (current : Pending node) (pending : List (Pending node)) :
    values (current :: pending) = current.value :: values pending := rfl

@[simp]
theorem values_append (pending more : List (Pending node)) :
    values (pending ++ more) = values pending ++ values more :=
  List.map_append

@[simp]
theorem values_operands (placed : Placed node) :
    values (operands placed) = placed.value.operands := by
  rw [values, operands, List.map_ofFn]
  exact List.ofFn_getElem

theorem nodesAll_values_lt (current : Pending node) (pending : List (Pending node)) :
    Value.nodesAll (values pending) < Value.nodesAll (values (current :: pending)) := by
  rw [values_cons, Value.nodesAll, Value.nodes_eq]
  omega

theorem nodesAll_values_operands_lt (current : Pending node) (pending : List (Pending node)) :
    Value.nodesAll (values (operands current.toPlaced ++ pending)) <
      Value.nodesAll (values (current :: pending)) := by
  rw [values_append, values_operands, values_cons, Value.nodesAll_append, Value.nodesAll,
    Value.nodes_eq]
  omega

end Pending

namespace Memory

open Pending (values)

section Search

variable [DecidableEq Address] (memory : Memory Address cells)

/-- Looks for a parameter in the pending values, through unvisited cells and addresses that have not
been seen. -/
def search (unvisited : CellSet) (seen : List Address) : List (Pending memory.node) → Bool
  | [] => false
  | current :: pending =>
    if current.isShared ∧ current.address [] ∈ seen then search unvisited seen pending
    else
      match current.value with
      | .parameter _ _ => true
      | .ref cell =>
        if h : unvisited.contains cell then
          have := CellSet.mask_erase_lt h
          search (unvisited.erase cell) (current.mark seen)
            (⟨memory.content cell, false⟩ :: pending)
        else search unvisited (current.mark seen) pending
      | _ => search unvisited (current.mark seen) (Pending.operands current.toPlaced ++ pending)
  termination_by pending => (unvisited.mask, Value.nodesAll (values pending))
  decreasing_by
    · exact .right _ (Pending.nodesAll_values_lt current pending)
    · exact .left _ _ this
    · exact .right _ (Pending.nodesAll_values_lt current pending)
    · exact .right _ (Pending.nodesAll_values_operands_lt current pending)

/-- Whether the search from a value finds a parameter. -/
def findsParameter (placed : Placed memory.node) : Bool :=
  memory.search (.below cells.size) [] [⟨placed, false⟩]

end Search

/-! ### What the search finds is reachable -/

variable {memory : Memory Address cells} {unvisited : CellSet} {seen : List Address}
variable {pending : List (Pending memory.node)}

/-- A successful search had a pending value from which a parameter can be reached. -/
theorem exists_pending_of_search [DecidableEq Address]
    (h : memory.search unvisited seen pending = true) :
    ∃ value ∈ values pending, cells.ReachesParameter value := by
  fun_induction memory.search unvisited seen pending with
  | case1 => cases h
  | case2 unvisited seen current pending hseen ih =>
    obtain ⟨value, hmem, hreach⟩ := ih h
    exact ⟨value, .tail _ hmem, hreach⟩
  | case3 unvisited seen current pending hseen index kind hvalue =>
    exact ⟨current.value, .head _, index, kind, hvalue ▸ .refl _⟩
  | case4 unvisited seen current pending hseen cell hvalue hcell hmask ih =>
    obtain ⟨value, hmem, hreach⟩ := ih h
    rcases List.mem_cons.1 hmem with rfl | hmem
    · refine ⟨current.value, .head _, ?_⟩
      rw [hvalue]
      have hreach : cells.ReachesParameter (memory.content cell).value := hreach
      rw [memory.value_content] at hreach
      exact hreach.head (.content cell)
    · exact ⟨value, .tail _ hmem, hreach⟩
  | case5 unvisited seen current pending hseen cell hvalue hcell ih =>
    obtain ⟨value, hmem, hreach⟩ := ih h
    exact ⟨value, .tail _ hmem, hreach⟩
  | case6 unvisited seen current pending hseen hparameter href ih =>
    obtain ⟨value, hmem, hreach⟩ := ih h
    rw [Pending.values_append, Pending.values_operands] at hmem
    rcases List.mem_append.1 hmem with hmem | hmem
    · exact ⟨current.value, .head _, hreach.head (.operand hmem)⟩
    · exact ⟨value, .tail _ hmem, hreach⟩

/-! ### What is reachable is found -/

/-- What has been entered has no parameter among it, and what is below it has been entered or is
pending. So is the content of every visited cell, and what was seen has been entered. -/
structure Explored (memory : Memory Address cells) (unvisited : CellSet) (seen : List Address)
    (entered pending : List Value) : Prop where
  ne_parameter : ∀ value ∈ entered, ∀ index kind, value ≠ .parameter index kind
  child : ∀ value ∈ entered, ∀ child, cells.Child value child → child ∈ entered ++ pending
  content : ∀ cell, unvisited.contains cell = false →
    cells.size ≤ cell ∨ cells.content cell ∈ entered ++ pending
  node : ∀ address ∈ seen, memory.node address ∈ entered

namespace Explored

variable {remaining : CellSet} {marked : List Address} {entered values later : List Value}
variable {current : Value}

/-- What has been entered or is pending stays so, when a value that was entered before is left
out. -/
theorem mem_of_skip (hcurrent : current ∈ entered) :
    ∀ value ∈ entered ++ current :: values, value ∈ entered ++ values := by
  intro value hvalue
  rcases List.mem_append.1 hvalue with hentered | hpending
  · exact List.mem_append_left _ hentered
  · rcases List.mem_cons.1 hpending with rfl | hpending
    · exact List.mem_append_left _ hcurrent
    · exact List.mem_append_right _ hpending

/-- What has been entered or is pending stays so, when a pending value is entered. -/
theorem mem_of_enter (hlater : ∀ value ∈ values, value ∈ later) :
    ∀ value ∈ entered ++ current :: values, value ∈ current :: entered ++ later := by
  intro value hvalue
  rcases List.mem_append.1 hvalue with hentered | hpending
  · exact List.mem_append_left _ (.tail _ hentered)
  · rcases List.mem_cons.1 hpending with rfl | hpending
    · exact List.mem_append_left _ (.head _)
    · exact List.mem_append_right _ (hlater _ hpending)

/-- A pending value that was entered before can be left out. -/
theorem skip (h : memory.Explored unvisited seen entered (current :: values))
    (hcurrent : current ∈ entered) : memory.Explored unvisited seen entered values where
  ne_parameter := h.ne_parameter
  child value hvalue child hchild := mem_of_skip hcurrent _ (h.child value hvalue child hchild)
  content cell hcell := (h.content cell hcell).imp_right (mem_of_skip hcurrent _)
  node := h.node

/-- A pending value is entered. What is below it has been entered or becomes pending, and so does
the content of the cell that is visited with it. -/
theorem enter (h : memory.Explored unvisited seen entered (current :: values))
    (hlater : ∀ value ∈ values, value ∈ later)
    (hparameter : ∀ index kind, current ≠ .parameter index kind)
    (hchild : ∀ child, cells.Child current child → child ∈ current :: entered ++ later)
    (hcontent : ∀ cell, remaining.contains cell = false →
      unvisited.contains cell = false ∨ cells.content cell ∈ later)
    (hnode : ∀ address ∈ marked, address ∈ seen ∨ memory.node address = current) :
    memory.Explored remaining marked (current :: entered) later where
  ne_parameter := List.forall_mem_cons.2 ⟨hparameter, h.ne_parameter⟩
  child := List.forall_mem_cons.2 ⟨hchild, fun value hvalue child hstep =>
    mem_of_enter hlater _ (h.child value hvalue child hstep)⟩
  content cell hcell := by
    rcases hcontent cell hcell with hvisited | hpending
    · exact (h.content cell hvisited).imp_right (mem_of_enter hlater _)
    · exact .inr (List.mem_append_right _ hpending)
  node address haddress := by
    rcases hnode address haddress with hseen | rfl
    · exact .tail _ (h.node address hseen)
    · exact .head _

/-- A reference to an unvisited cell is entered, and its content becomes pending. -/
theorem enter_ref {cell : CellId}
    (h : memory.Explored unvisited seen entered (.ref cell :: values))
    (hnode : ∀ address ∈ marked, address ∈ seen ∨ memory.node address = .ref cell) :
    memory.Explored (unvisited.erase cell) marked (.ref cell :: entered)
      (cells.content cell :: values) := by
  refine h.enter (fun value hmem => .tail _ hmem) nofun ?_ ?_ hnode
  · intro child hchild
    cases hchild with
    | operand mem => cases mem
    | content => exact List.mem_append_right _ (.head _)
  · intro other hother
    rw [CellSet.contains_erase, Bool.and_eq_false_iff] at hother
    refine hother.imp_right fun hsame => ?_
    obtain rfl : cell = other := by simpa using hsame
    exact .head _

/-- A reference to a visited cell is entered. Its content has been entered or is pending already,
unless the cell was never allocated and stands for itself. -/
theorem enter_visited {cell : CellId}
    (h : memory.Explored unvisited seen entered (.ref cell :: values))
    (hcell : unvisited.contains cell = false)
    (hnode : ∀ address ∈ marked, address ∈ seen ∨ memory.node address = .ref cell) :
    memory.Explored unvisited marked (.ref cell :: entered) values := by
  refine h.enter (fun value hmem => hmem) nofun ?_ (fun other hother => .inl hother) hnode
  intro child hchild
  cases hchild with
  | operand mem => cases mem
  | content =>
    rcases h.content cell hcell with hsize | hmem
    · rw [Cells.content_of_size_le hsize]
      exact .head _
    · exact mem_of_enter (fun value hmem => hmem) _ hmem

/-- A value that is neither a parameter nor a reference is entered, and its operands become
pending. -/
theorem enter_operands (h : memory.Explored unvisited seen entered (current :: values))
    (hparameter : ∀ index kind, current ≠ .parameter index kind)
    (href : ∀ cell, current ≠ .ref cell)
    (hnode : ∀ address ∈ marked, address ∈ seen ∨ memory.node address = current) :
    memory.Explored unvisited marked (current :: entered) (current.operands ++ values) := by
  refine h.enter (fun value hmem => List.mem_append_right _ hmem) hparameter ?_
    (fun other hother => .inl hother) hnode
  intro child hchild
  cases hchild with
  | operand mem => exact List.mem_append_right _ (List.mem_append_left _ mem)
  | content cell => exact absurd rfl (href cell)

/-- When nothing is pending, no parameter can be reached from what has been entered. -/
theorem not_reachesParameter (h : memory.Explored unvisited seen entered []) {value : Value}
    (hvalue : value ∈ entered) : ¬ cells.ReachesParameter value := by
  rintro ⟨index, kind, hreach⟩
  have hclosed : ∀ target, cells.Reaches value target → target ∈ entered := by
    intro target hreach
    induction hreach with
    | refl => exact hvalue
    | tail _ step ih =>
      have hchild := h.child _ ih _ step
      rwa [List.append_nil] at hchild
  exact h.ne_parameter _ (hclosed _ hreach) index kind rfl

end Explored

/-- The address of a value that is entered is marked, if at all. -/
theorem node_of_mem_mark {current : Pending memory.node} {address : Address}
    (h : address ∈ current.mark seen) : address ∈ seen ∨ memory.node address = current.value := by
  rw [Pending.mark] at h
  split at h
  next =>
    rcases List.mem_cons.1 h with rfl | h
    · exact .inr current.node_top
    · exact .inl h
  next => exact .inl h

/-- After a search that finds nothing, no parameter can be reached from what was pending. The
invariant is that everything below what has been entered is entered or pending. -/
theorem not_reachesParameter_of_search [DecidableEq Address] {entered : List Value}
    (hexplored : memory.Explored unvisited seen entered (values pending))
    (h : memory.search unvisited seen pending = false) :
    ∀ value ∈ entered ++ values pending, ¬ cells.ReachesParameter value := by
  fun_induction memory.search unvisited seen pending generalizing entered with
  | case1 unvisited seen =>
    intro value hvalue
    rw [Pending.values, List.map_nil, List.append_nil] at hvalue
    exact hexplored.not_reachesParameter hvalue
  | case2 unvisited seen current pending hseen ih =>
    -- The node at an address that was seen is equal to this one, although its path may differ.
    have hcurrent : current.value ∈ entered := by
      rw [← current.node_top]
      exact hexplored.node _ hseen.2
    exact fun value hvalue =>
      ih (hexplored.skip hcurrent) h value (Explored.mem_of_skip hcurrent value hvalue)
  | case3 => cases h
  | case4 unvisited seen current pending hseen cell hvalue hcell hmask ih =>
    have hmark : ∀ address ∈ current.mark seen, address ∈ seen ∨ memory.node address = .ref cell :=
      fun address hmem => hvalue ▸ node_of_mem_mark hmem
    rw [Pending.values_cons, hvalue] at hexplored ⊢
    have hlater := hexplored.enter_ref hmark
    rw [← memory.value_content] at hlater
    intro value hmem
    refine ih hlater h value (Explored.mem_of_enter (fun value hmem => ?_) value hmem)
    exact .tail _ hmem
  | case5 unvisited seen current pending hseen cell hvalue hcell ih =>
    have hmark : ∀ address ∈ current.mark seen, address ∈ seen ∨ memory.node address = .ref cell :=
      fun address hmem => hvalue ▸ node_of_mem_mark hmem
    rw [Pending.values_cons, hvalue] at hexplored ⊢
    have hlater := hexplored.enter_visited (Bool.eq_false_iff.2 hcell) hmark
    intro value hmem
    exact ih hlater h value (Explored.mem_of_enter (fun value hmem => hmem) value hmem)
  | case6 unvisited seen current pending hseen hparameter href ih =>
    rw [Pending.values_cons] at hexplored ⊢
    have hlater := hexplored.enter_operands hparameter href fun address => node_of_mem_mark
    rw [← Pending.values_operands, ← Pending.values_append] at hlater
    intro value hmem
    refine ih hlater h value (Explored.mem_of_enter (fun value hmem => ?_) value hmem)
    rw [Pending.values_append]
    exact List.mem_append_right _ hmem

/-- The search from a value finds a parameter if and only if one can be reached. -/
theorem findsParameter_iff [DecidableEq Address] (memory : Memory Address cells)
    (placed : Placed memory.node) :
    memory.findsParameter placed = true ↔ cells.ReachesParameter placed.value := by
  constructor
  · intro h
    obtain ⟨value, hmem, hreach⟩ := exists_pending_of_search h
    rw [List.mem_singleton.1 hmem] at hreach
    exact hreach
  · intro hreach
    by_contra hnot
    have hstart : memory.Explored (.below cells.size) [] [] (values [⟨placed, false⟩]) := {
      ne_parameter := nofun
      child := nofun
      content := fun cell hcell => .inl (by simpa using hcell)
      node := nofun }
    rw [Bool.not_eq_true] at hnot
    exact not_reachesParameter_of_search hstart hnot placed.value (.head _) hreach

end Memory

/-! ### Both searches -/

/-- A value all of whose equal nodes lie at one address. -/
def Placed.tight (value : Value) : @Placed Value id where
  value := value
  address path := (value.part? path).getD value
  node_address path part h := by rw [h, Option.getD_some, id_eq]

/-- The memory in which everything is shared that can be. -/
def Memory.tight (cells : Cells) : Memory Value cells where
  node := id
  content cell := .tight (cells.content cell)
  value_content _ := rfl

/-- **The search for parameters is exact.** Whatever circles the contents of cells form, it ends,
and it finds a parameter if and only if one can be reached from the value. So does the search through
memory, however operands are shared: what it skips since it was entered before never costs it a
parameter. -/
theorem Cells.parameter_found_iff_reached (cells : Cells) :
    (∀ value, cells.dependsOnParameter value = true ↔ cells.ReachesParameter value) ∧
      ∀ {Address : Type} [DecidableEq Address] (memory : Memory Address cells)
        (placed : Placed memory.node),
        memory.findsParameter placed = true ↔ cells.ReachesParameter placed.value :=
  ⟨dependsOnParameter_iff, fun memory placed => memory.findsParameter_iff placed⟩

open Classical in
/-- A node that is linked to itself and to a parameter, as both operands of a sum. -/
theorem Cells.parameter_found_in_circle :
    let cells : Cells := ⟨#[.methodCall (.new "Node") "link" [.ref 0, .parameter 0 .int]]⟩
    let twice : Value := .binaryOp .add (.ref 0) (.ref 0)
    cells.dependsOnParameter twice = true ∧
      (Memory.tight cells).findsParameter (.tight twice) = true := by
  intro cells twice
  have hreach : cells.ReachesParameter twice := by
    have hargument : cells.Child (cells.content 0) (.parameter 0 .int) :=
      .operand (.tail _ (.tail _ (.head _)))
    exact ⟨0, .int, .head (.operand (.head _)) (.head (.content 0) (.head hargument (.refl _)))⟩
  exact ⟨((parameter_found_iff_reached cells).1 twice).2 hreach,
    ((parameter_found_iff_reached cells).2 (Memory.tight cells) (.tight twice)).2 hreach⟩

end FieldFlow
