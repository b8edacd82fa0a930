import TapeMachine.Console.Dialogue
import TapeMachine.Console.Filter
import TapeMachine.Console.Folder
import TapeMachine.Console.Log
import TapeMachine.Console.Options
import TapeMachine.Console.Program
import TapeMachine.Counter
import TapeMachine.Error
import TapeMachine.Job
import TapeMachine.Machine.Basic
import TapeMachine.Machine.Buffer
import TapeMachine.Machine.CallStack
import TapeMachine.Machine.Execute
import TapeMachine.Machine.ExitCode
import TapeMachine.Machine.FunctionTable
import TapeMachine.Machine.Journal
import TapeMachine.Machine.Reachable
import TapeMachine.Machine.Step
import TapeMachine.Machine.Structured
import TapeMachine.Main
import TapeMachine.Operator
import TapeMachine.Program.Basic
import TapeMachine.Program.Disassembly
import TapeMachine.Program.Matching
import TapeMachine.Program.Opcode
import TapeMachine.Proofs.Balance
import TapeMachine.Proofs.Breakpoints
import TapeMachine.Proofs.Cancellation
import TapeMachine.Proofs.Canonical
import TapeMachine.Proofs.Checked
import TapeMachine.Proofs.Comments
import TapeMachine.Proofs.Concatenation
import TapeMachine.Proofs.Control
import TapeMachine.Proofs.Correspondence
import TapeMachine.Proofs.Counting
import TapeMachine.Proofs.Diagnosis
import TapeMachine.Proofs.Disassembly
import TapeMachine.Proofs.Embedding
import TapeMachine.Proofs.Format
import TapeMachine.Proofs.Grammar
import TapeMachine.Proofs.Granularity
import TapeMachine.Proofs.Growth
import TapeMachine.Proofs.Invariant
import TapeMachine.Proofs.Iteration
import TapeMachine.Proofs.Layout
import TapeMachine.Proofs.Linkage
import TapeMachine.Proofs.Location
import TapeMachine.Proofs.Lockstep
import TapeMachine.Proofs.Logging
import TapeMachine.Proofs.Moves
import TapeMachine.Proofs.Nesting
import TapeMachine.Proofs.OpenLoops
import TapeMachine.Proofs.Packing
import TapeMachine.Proofs.Pairing
import TapeMachine.Proofs.Partners
import TapeMachine.Proofs.Placement
import TapeMachine.Proofs.Realization
import TapeMachine.Proofs.Records
import TapeMachine.Proofs.Refinement
import TapeMachine.Proofs.Regions
import TapeMachine.Proofs.Relocation
import TapeMachine.Proofs.Reports
import TapeMachine.Proofs.Resumption
import TapeMachine.Proofs.Room
import TapeMachine.Proofs.Runs
import TapeMachine.Proofs.Snapshots
import TapeMachine.Proofs.Stability
import TapeMachine.Proofs.Stepwise
import TapeMachine.Proofs.Tape
import TapeMachine.Proofs.Termination
import TapeMachine.Proofs.Traces
import TapeMachine.Proofs.Viability
import TapeMachine.Proofs.Visits
import TapeMachine.Proofs.Widening
import TapeMachine.Report.Basic
import TapeMachine.Report.Duration
import TapeMachine.Report.Text
import TapeMachine.Report.Trace
import TapeMachine.Script.Block
import TapeMachine.Script.Listing
import TapeMachine.Script.Token
import TapeMachine.Script.Validation
import TapeMachine.Session
import TapeMachine.Tape.Basic
import TapeMachine.Tape.CellMode
import TapeMachine.Tape.Snapshot
import TapeMachine.Text.CharClass
import TapeMachine.Text.Column
import TapeMachine.Text.Decimal
import TapeMachine.Text.Escape
import TapeMachine.Text.Numeral
import TapeMachine.Text.Pattern.Atom
import TapeMachine.Text.Pattern.Check
import TapeMachine.Text.Pattern.Class
import TapeMachine.Text.Slice
import TapeMachine.Wire.Codec
import TapeMachine.Wire.DecodeError
import TapeMachine.Wire.Lossy
import TapeMachine.Wire.Number
import TapeMachine.Wire.Record
import TapeMachine.Wire.Sequence
