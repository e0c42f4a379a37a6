import FieldFlow.Analysis
import FieldFlow.AnalysisError
import FieldFlow.Batch
import FieldFlow.Body.Basic
import FieldFlow.Body.Builder
import FieldFlow.Body.Json
import FieldFlow.Body.Listing
import FieldFlow.Boxing
import FieldFlow.Command
import FieldFlow.CommandLine.Arguments
import FieldFlow.CommandLine.Run
import FieldFlow.Constant
import FieldFlow.Container.Basic
import FieldFlow.Container.Bodies
import FieldFlow.Container.Bytes
import FieldFlow.Decimal.Binary
import FieldFlow.Decimal.Layout
import FieldFlow.Decimal.Shortest
import FieldFlow.Files
import FieldFlow.Instruction
import FieldFlow.Json.Basic
import FieldFlow.Json.Printer
import FieldFlow.Json.Reader
import FieldFlow.Kind.Basic
import FieldFlow.Kind.Descriptor
import FieldFlow.Machine
import FieldFlow.Main
import FieldFlow.Path
import FieldFlow.Proofs.Agree
import FieldFlow.Proofs.AliasFree.Basic
import FieldFlow.Proofs.AliasFree.Bits
import FieldFlow.Proofs.AliasFree.Linear
import FieldFlow.Proofs.AliasFree.Simulation
import FieldFlow.Proofs.AliasFree.Trees
import FieldFlow.Proofs.AliasFree.Unfolding
import FieldFlow.Proofs.Container.Bodies
import FieldFlow.Proofs.Container.Bytes
import FieldFlow.Proofs.Container.Canonical
import FieldFlow.Proofs.FieldReads
import FieldFlow.Proofs.Initializers.Analysis
import FieldFlow.Proofs.Initializers.Evaluation
import FieldFlow.Proofs.Initializers.Expression
import FieldFlow.Proofs.Initializers.Run
import FieldFlow.Proofs.Machine.Finality
import FieldFlow.Proofs.Machine.Flow
import FieldFlow.Proofs.Machine.Invariants
import FieldFlow.Proofs.Machine.Run
import FieldFlow.Proofs.Machine.Transition
import FieldFlow.Proofs.Machine.WellFormed
import FieldFlow.Proofs.State.Operations
import FieldFlow.Proofs.Value.Frame
import FieldFlow.Proofs.Value.Growth
import FieldFlow.Proofs.Value.Occurs
import FieldFlow.Proofs.Value.Reach
import FieldFlow.Proofs.Value.Root
import FieldFlow.Proofs.Verdict
import FieldFlow.Report
import FieldFlow.Settings
import FieldFlow.State
import FieldFlow.Table
import FieldFlow.Text.Blank
import FieldFlow.Text.Printable
import FieldFlow.Text.Quoted
import FieldFlow.Toml.Basic
import FieldFlow.Toml.Printer
import FieldFlow.Toml.Reader
import FieldFlow.Value.Basic
import FieldFlow.Value.CellSet
import FieldFlow.Value.Cells
import FieldFlow.Value.Render
import FieldFlow.Verdict
import FieldFlow.Proofs.Machine.Layers
import FieldFlow.Proofs.Machine.Locals
import FieldFlow.Proofs.Partition
import FieldFlow.Proofs.Decimal.Range
import FieldFlow.Proofs.Json.Numerals
import FieldFlow.Proofs.Json.RoundTrip
import FieldFlow.Proofs.Body.Json
import FieldFlow.Proofs.Kind.Grammar
import FieldFlow.Proofs.Kind.Rereading
import FieldFlow.Proofs.Table
import FieldFlow.Proofs.Batch
import FieldFlow.Proofs.State.Layout
import FieldFlow.Proofs.Machine.Names
import FieldFlow.Proofs.Provenance
import FieldFlow.Proofs.Value.Renaming
import FieldFlow.Proofs.Machine.Renaming
import FieldFlow.Proofs.Discarded
import FieldFlow.Proofs.Machine.Copies
import FieldFlow.Proofs.Json.Extent
import FieldFlow.Proofs.Body.Extent
import FieldFlow.Proofs.Conversion
import FieldFlow.Proofs.Value.Search
import FieldFlow.Proofs.Value.Rendering
import FieldFlow.Proofs.Container.Truncation
import FieldFlow.Proofs.Value.Walk
import FieldFlow.Proofs.Machine.Allocation
