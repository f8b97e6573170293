import Quadlane.Assembly.Error
import Quadlane.Assembly.Format
import Quadlane.Assembly.Operand
import Quadlane.Assembly.Parse
import Quadlane.Assembly.Vector
import Quadlane.Cli.Basic
import Quadlane.Cli.Flags
import Quadlane.Cli.Reading
import Quadlane.Code.Instruction
import Quadlane.Code.Listing
import Quadlane.Code.Opcode
import Quadlane.Code.Operand
import Quadlane.Files.Path
import Quadlane.Files.Tree
import Quadlane.Image.File
import Quadlane.Image.Item
import Quadlane.Image.Reader
import Quadlane.Image.Schema
import Quadlane.Kernel
import Quadlane.Lane.Arithmetic
import Quadlane.Lane.Basic
import Quadlane.Lane.Digits
import Quadlane.Lane.Elementary
import Quadlane.Lane.Format
import Quadlane.Lane.Numeral
import Quadlane.Lane.Wide
import Quadlane.Machine.Action
import Quadlane.Machine.Dispatch
import Quadlane.Machine.Exec
import Quadlane.Machine.Frame
import Quadlane.Machine.Memory
import Quadlane.Machine.Run
import Quadlane.Main
import Quadlane.Noise
import Quadlane.Output
import Quadlane.Program.Basic
import Quadlane.Program.Builder
import Quadlane.Program.Constants
import Quadlane.Program.Validation
import Quadlane.Quad.Basic
import Quadlane.Quad.Sequence
import Quadlane.Random.Initial
import Quadlane.Random.Stream
import Quadlane.Report
import Quadlane.Scenario.Basic
import Quadlane.Scenario.Build
import Quadlane.Scenario.Decode
import Quadlane.Session.Basic
import Quadlane.Session.Vocabulary
import Quadlane.Simulation.DataSet
import Quadlane.Simulation.Emitter
import Quadlane.Simulation.Grouping
import Quadlane.Simulation.Tick
import Quadlane.Simulation.World
import Quadlane.Text.Basic
import Quadlane.Text.Printable
import Quadlane.Text.Quoted
import Quadlane.Text.Rune
import Quadlane.Toml.Basic
import Quadlane.Toml.Moment
import Quadlane.Toml.Number
import Quadlane.Toml.Quoted
import Quadlane.Toml.Reader
import Quadlane.Toml.Tree
import Quadlane.View
import Quadlane.Word
import Quadlane.Proofs.Chunks
import Quadlane.Proofs.Decoding
import Quadlane.Proofs.Shape
import Quadlane.Proofs.Soundness
import Quadlane.Proofs.Cells
import Quadlane.Proofs.Refinement
import Quadlane.Proofs.Ascii
import Quadlane.Proofs.Encoding
import Quadlane.Proofs.AssemblyLine
import Quadlane.Proofs.Reassembly
import Quadlane.Proofs.Cursors
import Quadlane.Proofs.Loading
import Quadlane.Proofs.Ticking
import Quadlane.Proofs.Binding
import Quadlane.Proofs.WorldSafety
import Quadlane.Proofs.Components
import Quadlane.Proofs.Dispatching
import Quadlane.Proofs.Footprint
import Quadlane.Proofs.Sharing
import Quadlane.Proofs.Interleaving
import Quadlane.Proofs.Independence
import Quadlane.Proofs.Atomicity
import Quadlane.Proofs.Schedules
import Quadlane.Proofs.Ending
import Quadlane.Proofs.Images
import Quadlane.Proofs.Rounding
import Quadlane.Proofs.Shortest
import Quadlane.Proofs.Numerals
import Quadlane.Proofs.Formatting
import Quadlane.Proofs.ImageFiles
import Quadlane.Proofs.CursorRuns
import Quadlane.Proofs.Rebinding
import Quadlane.Proofs.Confinement
import Quadlane.Proofs.Indices
import Quadlane.Proofs.RunSteps
import Quadlane.Proofs.Emission
import Quadlane.Proofs.Reception
import Quadlane.Proofs.ScriptRuns
import Quadlane.Proofs.Handover
import Quadlane.Proofs.Compaction
import Quadlane.Proofs.Building
import Quadlane.Proofs.Noninterference
import Quadlane.Proofs.Entries
import Quadlane.Proofs.Grammar
import Quadlane.Proofs.EventSlots
import Quadlane.Proofs.Twins
import Quadlane.Proofs.ScriptTwins
import Quadlane.Proofs.Lifetime
import Quadlane.Proofs.Isolation
import Quadlane.Proofs.Commuting
import Quadlane.Proofs.Codec
import Quadlane.Proofs.Bookkeeping
import Quadlane.Proofs.Accesses
import Quadlane.Proofs.Composition
import Quadlane.Proofs.Pieces
import Quadlane.Proofs.Spelling
import Quadlane.Proofs.Layouts
import Quadlane.Proofs.Continuation
import Quadlane.Proofs.Windows
import Quadlane.Proofs.SpawnAccounting
import Quadlane.Proofs.Records
