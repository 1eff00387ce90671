import PCode.Assembly.Error
import PCode.Assembly.Line
import PCode.Assembly.Source
import PCode.Assembly.Token
import PCode.Command.Invocation
import PCode.Command.Outcome
import PCode.Command.Plan
import PCode.Command.RunOptions
import PCode.Files.Directory
import PCode.Files.Path
import PCode.Instruction
import PCode.InstructionSet
import PCode.Listing
import PCode.Machine.Access
import PCode.Machine.Execute
import PCode.Machine.Fault
import PCode.Machine.Sink
import PCode.Machine.State
import PCode.Machine.Step
import PCode.Main
import PCode.Text.Blank
import PCode.Text.Numeral
import PCode.Text.Pieces
import PCode.Text.Upper
import PCode.Text.UpperTable
import PCode.Text.Utf8
import PCode.Width
import PCode.Wire.Binary
import PCode.Wire.LittleEndian
import PCode.Wire.Record
import PCode.Proofs.Machine.Action
import PCode.Proofs.Machine.Effect
import PCode.Proofs.Machine.Run
import PCode.Proofs.Machine.Frames
import PCode.Proofs.Traversal
import PCode.Proofs.Wire.Record
import PCode.Proofs.Wire.Binary
import PCode.Proofs.Text.Decimal
import PCode.Proofs.Assembly.Words
import PCode.Proofs.Assembly.Operands
import PCode.Proofs.Assembly.Line
import PCode.Proofs.Assembly.Reassembly
import PCode.Proofs.Machine.Simulation
import PCode.Proofs.Machine.Session
import PCode.Proofs.Machine.Checked
import PCode.Proofs.Machine.Bounds
import PCode.Proofs.Machine.Congruence
import PCode.Proofs.Machine.Capacity
import PCode.Proofs.Assembly.Acceptance
import PCode.Proofs.Command.Assembling
import PCode.Proofs.Machine.Rejection
import PCode.Proofs.Machine.Bookkeeping
import PCode.Proofs.Machine.Completion
import PCode.Proofs.Machine.Lockstep
import PCode.Proofs.Machine.Trace
import PCode.Proofs.Machine.Restart
import PCode.Proofs.Machine.BoundedOutput
import PCode.Proofs.Machine.Guarded
import PCode.Proofs.Machine.Conditions
import PCode.Proofs.Machine.Footprint
import PCode.Proofs.Machine.Popped
import PCode.Proofs.Machine.Residue
import PCode.Proofs.Expression.Meaning
import PCode.Proofs.Expression.Evaluation
import PCode.Proofs.Expression.Addressing
import PCode.Proofs.Files.Writing
import PCode.Proofs.Command.Arguments
import PCode.Proofs.Command.Execution
import PCode.Proofs.Command.Endings
import PCode.Proofs.Command.Debug
import PCode.Proofs.Command.ThroughFiles
import PCode.Proofs.Text.Lines
import PCode.Proofs.Assembly.Composition
import PCode.Proofs.Wire.Location
import PCode.Proofs.Text.LetterCase
import PCode.Proofs.Text.Numerals
import PCode.Proofs.Assembly.Lexical
import PCode.Proofs.Assembly.Grammar
import PCode.Proofs.Assembly.Layout
import PCode.Proofs.Machine.Height
import PCode.Proofs.Machine.OutputLog
import PCode.Proofs.Command.Grouping
import PCode.Proofs.Machine.Outermost
import PCode.Proofs.Assembly.Identification
import PCode.Proofs.Assembly.Malformed
