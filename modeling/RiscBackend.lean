import RiscBackend.Alloc.Interval
import RiscBackend.Alloc.LinearScan
import RiscBackend.Alloc.Liveness
import RiscBackend.Asm.Line
import RiscBackend.Asm.Program
import RiscBackend.Backend
import RiscBackend.Cli.App
import RiscBackend.Cli.FlagSet
import RiscBackend.Config.Basic
import RiscBackend.Config.Flags
import RiscBackend.Config.Groups
import RiscBackend.Config.Target
import RiscBackend.Diagnostic
import RiscBackend.Files.Directory
import RiscBackend.Files.Glob
import RiscBackend.Files.Path
import RiscBackend.Golden.Command
import RiscBackend.Golden.Result
import RiscBackend.Golden.Run
import RiscBackend.Golden.Settings
import RiscBackend.IR.Basic
import RiscBackend.IR.Check
import RiscBackend.Lower.Block
import RiscBackend.Lower.Emission
import RiscBackend.Lower.Env
import RiscBackend.Lower.Module
import RiscBackend.Lower.Select
import RiscBackend.Main
import RiscBackend.Proofs.Alloc.Crossing
import RiscBackend.Proofs.Alloc.Decisions
import RiscBackend.Proofs.Alloc.Discovery
import RiscBackend.Proofs.Alloc.Extent
import RiscBackend.Proofs.Alloc.FirstMention
import RiscBackend.Proofs.Alloc.Inclusion
import RiscBackend.Proofs.Alloc.Indexed
import RiscBackend.Proofs.Alloc.PlainScan
import RiscBackend.Proofs.Alloc.Pressure
import RiscBackend.Proofs.Alloc.Rearrangement
import RiscBackend.Proofs.Alloc.Renumber
import RiscBackend.Proofs.Alloc.Residence
import RiscBackend.Proofs.Alloc.Search
import RiscBackend.Proofs.Asm.Footprint
import RiscBackend.Proofs.Asm.Machine
import RiscBackend.Proofs.Cli.Accounts
import RiscBackend.Proofs.Cli.Pieces
import RiscBackend.Proofs.Cli.Spellings
import RiscBackend.Proofs.Cli.Switches
import RiscBackend.Proofs.Config.Chosen
import RiscBackend.Proofs.Config.Configured
import RiscBackend.Proofs.Config.Drivers
import RiscBackend.Proofs.Config.Precedence
import RiscBackend.Proofs.Config.Requests
import RiscBackend.Proofs.Config.Switches
import RiscBackend.Proofs.Files.Writing
import RiscBackend.Proofs.Golden.Moves
import RiscBackend.Proofs.Golden.Renewal
import RiscBackend.Proofs.Golden.Schedules
import RiscBackend.Proofs.Golden.Verdicts
import RiscBackend.Proofs.IR.Checked
import RiscBackend.Proofs.IR.Interpreter
import RiscBackend.Proofs.IR.Runs
import RiscBackend.Proofs.IR.Thinning
import RiscBackend.Proofs.IR.WellFormed
import RiscBackend.Proofs.Lower.Agreement
import RiscBackend.Proofs.Lower.Cut
import RiscBackend.Proofs.Lower.Execution
import RiscBackend.Proofs.Lower.Failures
import RiscBackend.Proofs.Lower.Fetch
import RiscBackend.Proofs.Lower.Frame
import RiscBackend.Proofs.Lower.Functions
import RiscBackend.Proofs.Lower.Ignored
import RiscBackend.Proofs.Lower.Immediates
import RiscBackend.Proofs.Lower.Independence
import RiscBackend.Proofs.Lower.Labels
import RiscBackend.Proofs.Lower.Lockstep
import RiscBackend.Proofs.Lower.Meaning
import RiscBackend.Proofs.Lower.Moves
import RiscBackend.Proofs.Lower.Outcome
import RiscBackend.Proofs.Lower.Phases
import RiscBackend.Proofs.Lower.Placement
import RiscBackend.Proofs.Lower.Plan
import RiscBackend.Proofs.Lower.Records
import RiscBackend.Proofs.Lower.Registry
import RiscBackend.Proofs.Lower.Remarks
import RiscBackend.Proofs.Lower.Returns
import RiscBackend.Proofs.Lower.Room
import RiscBackend.Proofs.Lower.Routines
import RiscBackend.Proofs.Lower.Separate
import RiscBackend.Proofs.Lower.Sequence
import RiscBackend.Proofs.Lower.Simulation
import RiscBackend.Proofs.Lower.Slots
import RiscBackend.Proofs.Lower.Strictness
import RiscBackend.Proofs.Lower.Tasks
import RiscBackend.Proofs.Procedure
import RiscBackend.Proofs.Qbe.Interpreter
import RiscBackend.Proofs.Qbe.Lines
import RiscBackend.Proofs.Qbe.Meaning
import RiscBackend.Proofs.Qbe.Simulation
import RiscBackend.Proofs.Qbe.Temporaries
import RiscBackend.Proofs.Robustness
import RiscBackend.Proofs.Source.Acceptance
import RiscBackend.Proofs.Source.Alike
import RiscBackend.Proofs.Source.Canonical
import RiscBackend.Proofs.Source.Cursor
import RiscBackend.Proofs.Source.Layout
import RiscBackend.Proofs.Source.Lexemes
import RiscBackend.Proofs.Source.Partition
import RiscBackend.Proofs.Source.Reading
import RiscBackend.Proofs.Source.RoundTrip
import RiscBackend.Proofs.Source.Rows
import RiscBackend.Proofs.Source.Spelled
import RiscBackend.Proofs.Source.Symbols
import RiscBackend.Proofs.Source.Totality
import RiscBackend.Proofs.Source.Underline
import RiscBackend.Proofs.Text.Cut
import RiscBackend.Proofs.Text.Decimal
import RiscBackend.Proofs.Text.Words
import RiscBackend.Proofs.Text.Wrapping
import RiscBackend.Qbe.Lower
import RiscBackend.Qbe.Text
import RiscBackend.Sorting.Heap
import RiscBackend.Sorting.Pivot
import RiscBackend.Sorting.Quick
import RiscBackend.Sorting.Split
import RiscBackend.Source.Fault
import RiscBackend.Source.Grammar
import RiscBackend.Source.Lexeme
import RiscBackend.Source.Lexer
import RiscBackend.Source.Parser
import RiscBackend.Source.Token
import RiscBackend.Text.Blank
import RiscBackend.Text.CodeRange
import RiscBackend.Text.Cut
import RiscBackend.Text.Decimal
import RiscBackend.Text.Difference
import RiscBackend.Text.Digest
import RiscBackend.Text.Digit
import RiscBackend.Text.Layout
import RiscBackend.Text.Letter
import RiscBackend.Text.Numeral
import RiscBackend.Text.Printable
import RiscBackend.Text.Quoted
import RiscBackend.Text.Utf8
import RiscBackend.Tool.Compile
import RiscBackend.Tool.Session
