import FieldFlow.Proofs.Value.Reach

/-!
# What occurs in a value

The nodes of a value as it is written, and properties that all of them have.

## Main Definitions

* `Value.Occurs`: a value is a node of another one
* `Value.Throughout`: every node of a value has a property
* `Value.Scoped`: only cells below a bound are mentioned
* `Value.DirectReceivers`: no call and no field read has a bare reference as its receiver

## Design Notes

Both properties are asked of every node of a value, whatever its depth. They are instances of
`Value.Throughout`, so that a value is shown to have one of them by looking at its topmost node
and at its operands.
-/

namespace FieldFlow.Value

/-- The first value is a node of the second, cells left aside. -/
inductive Occurs (node : Value) : Value → Prop
  | here : Occurs node node
  | operand {value operand : Value} (mem : operand ∈ value.operands)
      (inside : Occurs node operand) : Occurs node value

/-- Every node of the value has the property. -/
def Throughout (P : Value → Prop) (value : Value) : Prop :=
  ∀ node, Occurs node value → P node

variable {P Q : Value → Prop} {value : Value}

/-- A value has a property throughout iff it has it at the top and in each operand. -/
theorem throughout_iff :
    Throughout P value ↔ P value ∧ ∀ operand ∈ value.operands, Throughout P operand := by
  constructor
  · intro h
    refine ⟨h value .here, ?_⟩
    intro operand mem node inside
    exact h node (.operand mem inside)
  · rintro ⟨htop, hoperands⟩ node hnode
    cases hnode with
    | here => exact htop
    | operand mem inside => exact hoperands _ mem node inside

theorem Throughout.operand {operand : Value} (h : Throughout P value)
    (mem : operand ∈ value.operands) : Throughout P operand :=
  (throughout_iff.1 h).2 operand mem

theorem Throughout.imp (h : Throughout P value) (himp : ∀ node, P node → Q node) :
    Throughout Q value :=
  fun node hnode => himp node (h node hnode)

/-- A parameter is mentioned by a value iff it is a node of it. -/
theorem mentionsParameter_iff_occurs (value : Value) :
    value.mentionsParameter = true ↔ ∃ index kind, Occurs (.parameter index kind) value := by
  constructor
  · intro h
    induction value using inductionOnOperands with
    | node value ih =>
      rcases value.mentionsParameter_iff.1 h with ⟨index, kind, rfl⟩ | ⟨operand, mem, h⟩
      · exact ⟨index, kind, .here⟩
      · obtain ⟨index, kind, inside⟩ := ih operand mem h
        exact ⟨index, kind, .operand mem inside⟩
  · rintro ⟨index, kind, h⟩
    induction h with
    | here => rw [mentionsParameter]
    | operand mem _ ih => exact (mentionsParameter_iff _).2 (.inr ⟨_, mem, ih⟩)

/-! ### Mentioned cells -/

/-- Every reference in the value is to a cell below the bound. -/
def Scoped (bound : Nat) : Value → Prop :=
  Throughout fun node => ∀ cell, node = .ref cell → cell < bound

variable {bound : Nat}

theorem scoped_ref {cell : CellId} : Scoped bound (.ref cell) ↔ cell < bound := by
  rw [Scoped, throughout_iff]
  constructor
  · intro h
    exact h.1 cell rfl
  · intro h
    refine ⟨?_, nofun⟩
    intro other heq
    cases heq
    exact h

/-- A value that is no reference mentions the cells that its operands mention. -/
theorem scoped_iff_operands (h : value.isRef = false) :
    Scoped bound value ↔ ∀ operand ∈ value.operands, Scoped bound operand := by
  rw [Scoped, throughout_iff]
  refine and_iff_right ?_
  rintro cell rfl
  cases h

theorem Scoped.mono {larger : Nat} (h : Scoped bound value) (hle : bound ≤ larger) :
    Scoped larger value :=
  h.imp fun _ hnode cell heq => Nat.lt_of_lt_of_le (hnode cell heq) hle

/-! ### Receivers -/

/-- The receiver of a call or of a field read. -/
def receiver? : Value → Option Value
  | methodCall receiver _ _ => some receiver
  | fieldRead receiver _ => some receiver
  | _ => none

/-- No call and no field read in the value has a bare reference as its receiver. -/
def DirectReceivers : Value → Prop :=
  Throughout fun node => ∀ receiver, node.receiver? = some receiver → receiver.isRef = false

/-- A value without a receiver has direct receivers if its operands have. -/
theorem directReceivers_iff_operands (h : value.receiver? = none) :
    DirectReceivers value ↔ ∀ operand ∈ value.operands, DirectReceivers operand := by
  rw [DirectReceivers, throughout_iff]
  refine and_iff_right ?_
  intro receiver heq
  rw [h] at heq
  cases heq

theorem DirectReceivers.of_receiver {receiver : Value} (h : value.receiver? = some receiver)
    (direct : receiver.isRef = false)
    (operands : ∀ operand ∈ value.operands, DirectReceivers operand) : DirectReceivers value := by
  rw [DirectReceivers, throughout_iff]
  refine ⟨?_, operands⟩
  intro other heq
  rw [h] at heq
  cases heq
  exact direct

/-- A chain of direct receivers below anything but a reference does not meet a reference. -/
theorem DirectReceivers.isRef_receiverRoot (h : DirectReceivers value)
    (direct : value.isRef = false) : value.receiverRoot.isRef = false := by
  induction value using inductionOnOperands with
  | node value ih =>
    cases value with
    | methodCall receiver name args =>
      have hreceiver : receiver.isRef = false := (throughout_iff.1 h).1 receiver rfl
      have hmem : receiver ∈ (methodCall receiver name args).operands := List.mem_cons_self
      rw [receiverRoot]
      exact ih receiver hmem (h.operand hmem) hreceiver
    | _ => exact direct

end FieldFlow.Value
