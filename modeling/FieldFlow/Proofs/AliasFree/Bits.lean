import FieldFlow.Proofs.AliasFree.Simulation
import FieldFlow.Proofs.Value.Root

/-!
# Prediction by bits

Whether a body is accepted by the symbolic machine, and which fields it assigns, can be told
without any values: one bit for each stack entry is enough.

## Main Definitions

* `AliasFree.bits`: the domain of bits
* `AliasFree.TellsThis`: the bit tells whether a value denotes the object under construction

## Main Statements

* `AliasFree.run_predicted_by_bits`: the machine of bits has the same outcome

## Design Notes

A bit describes a value through its root, and not through the search of `Cells.denotesThis`. The
root of a value is known to exist and to stay, whatever calls are made through other references,
while the search could give a different answer once cells refer to each other in a circle.
-/

namespace FieldFlow.AliasFree

/-- An entry is a bit that tells whether it denotes the object under construction. A call has the
bit of its receiver. -/
def bits : Domain Bool where
  this := true
  parameter _ _ := false
  constant _ := false
  int _ := false
  new _ := false
  methodCall receiver _ _ := receiver
  staticCall _ _ _ := false
  fieldRead _ _ := false
  staticField _ _ := false
  binaryOp _ _ _ := false
  denotesThis bit := bit

/-- The slots of the bits: the object under construction, and nothing else that denotes it. -/
theorem locals_initial_bits (parameters : List Kind) :
    (State.initial bits parameters).locals =
      true :: List.replicate (Kind.totalWidth parameters) false := by
  have hslots : ∀ index, State.parametersFrom bits index parameters =
      List.replicate (Kind.totalWidth parameters) false := by
    induction parameters with
    | nil => exact fun index => rfl
    | cons kind kinds ih =>
      intro index
      rw [State.parametersFrom, ih, Kind.totalWidth_cons, List.replicate_add]
      rfl
  rw [State.initial, hslots]
  rfl

/-- The value has a root, and the bit tells whether that is the object under construction. -/
def TellsThis (cells : Cells) (value : Value) (bit : Bool) : Prop :=
  ∃ passed root, cells.RootedAt passed value root ∧ root.isThis = bit

theorem tellsThis_of_isRoot {cells : Cells} {value : Value} (h : value.isRoot = true) :
    TellsThis cells value value.isThis :=
  ⟨0, value, .root h, rfl⟩

theorem bits_abstracts : Abstracts bits TellsThis where
  grows := fun ⟨passed, root, hroot, hbit⟩ hgrows => ⟨passed, root, hroot.grows hgrows, hbit⟩
  cell_lt_size := fun ⟨_, _, hroot, _⟩ => hroot.cell_lt_size
  ref_iff := by
    intro cells cell bit
    constructor
    · rintro ⟨passed, root, hroot, hbit⟩
      obtain ⟨passed', hcontent⟩ := hroot.content
      exact ⟨passed', root, hcontent, hbit⟩
    · rintro ⟨passed, root, hroot, hbit⟩
      exact ⟨passed + 1, root, .cell hroot, hbit⟩
  this _ := tellsThis_of_isRoot rfl
  parameter _ _ _ := tellsThis_of_isRoot rfl
  constant _ _ := tellsThis_of_isRoot rfl
  int _ _ := tellsThis_of_isRoot rfl
  new _ _ := tellsThis_of_isRoot rfl
  methodCall := fun name ⟨passed, root, hroot, hbit⟩ _ =>
    ⟨passed, root, hroot.receiver name _, hbit⟩
  staticCall _ _ _ := tellsThis_of_isRoot rfl
  fieldRead _ _ := tellsThis_of_isRoot rfl
  staticField _ _ _ := tellsThis_of_isRoot rfl
  binaryOp _ _ _ := tellsThis_of_isRoot rfl
  denotesThis := fun ⟨_, _, hroot, hbit⟩ => hroot.denotesThis.trans hbit

/-- **The outcome of a run is predicted by bits.** The machine of bits accepts the same bodies with
the same assigned fields in the same order, and rejects the others with the same error. After each
instruction of a run its stack holds one bit for every entry, which tells whether the entry denotes
the object under construction. -/
theorem run_predicted_by_bits (body : Body) (options : Options) :
    (Machine.run body options).map (fun state => state.assignments.map (·.1)) =
        (run bits body options).map (fun state => state.assignments.map (·.1)) ∧
      ∀ executed state, Machine.Visits body options executed state →
        ∃ abstract,
          execute bits (.of body options) executed (.initial bits body.parameters) =
              .ok abstract ∧
            abstract.depth = state.depth ∧
            abstract.stack = state.stack.map state.cells.denotesThis := by
  constructor
  · exact (run_agree bits_abstracts body options).map_eq_map fun _ _ h => h.fields
  · intro executed state hvisits
    obtain ⟨abstract, hexecute, h⟩ := visits_simulates bits_abstracts hvisits
    refine ⟨abstract, hexecute, h.depth.symm, ?_⟩
    rw [← List.forall₂_eq_eq_eq, List.forall₂_map_right_iff]
    exact h.stack.flip.imp fun _ _ hbit => (bits_abstracts.denotesThis hbit).symm

end FieldFlow.AliasFree
