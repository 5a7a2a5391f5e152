import TeachingCpu.Assembly.Draft
import TeachingCpu.Assembly.Encode
import TeachingCpu.Assembly.Journal
import TeachingCpu.Assembly.Symbols
import TeachingCpu.Bench
import TeachingCpu.CommandLine.Arguments
import TeachingCpu.CommandLine.Execute
import TeachingCpu.Config
import TeachingCpu.Console
import TeachingCpu.Cpu.Arithmetic
import TeachingCpu.Cpu.Basic
import TeachingCpu.Cpu.Registers
import TeachingCpu.Debugger.Command
import TeachingCpu.Debugger.Session
import TeachingCpu.Error.Basic
import TeachingCpu.Error.Cause
import TeachingCpu.Files.Error
import TeachingCpu.Files.Name
import TeachingCpu.Files.Storage
import TeachingCpu.Files.Table
import TeachingCpu.Files.Tree
import TeachingCpu.Image.Basic
import TeachingCpu.Image.Decode
import TeachingCpu.Isa.Architecture
import TeachingCpu.Isa.Flag
import TeachingCpu.Isa.Instruction
import TeachingCpu.Isa.Opcode
import TeachingCpu.Isa.Operand
import TeachingCpu.Isa.Register
import TeachingCpu.Isa.Signal
import TeachingCpu.Listing.Basic
import TeachingCpu.Listing.Source
import TeachingCpu.Machine.Basic
import TeachingCpu.Machine.Execute
import TeachingCpu.Machine.Fetch
import TeachingCpu.Machine.Run
import TeachingCpu.Machine.Status
import TeachingCpu.Main
import TeachingCpu.Memory.Basic
import TeachingCpu.Memory.Layout
import TeachingCpu.Proofs.Attempt
import TeachingCpu.Proofs.Debugger.Recorded
import TeachingCpu.Proofs.Image.Codec
import TeachingCpu.Report
import TeachingCpu.Service.Dispatch
import TeachingCpu.Source.Literal
import TeachingCpu.Source.Span
import TeachingCpu.Source.Token
import TeachingCpu.Text.Blank
import TeachingCpu.Text.Integer
import TeachingCpu.Text.Latin1
import TeachingCpu.Text.Number
import TeachingCpu.Text.Split
import TeachingCpu.Text.Styled
import TeachingCpu.Proofs.Debugger.Breaks
import TeachingCpu.Proofs.Memory
import TeachingCpu.Proofs.Assembly.Draft
import TeachingCpu.Proofs.Assembly.Pool
import TeachingCpu.Proofs.Listing.Decode
import TeachingCpu.Proofs.Machine.Load
import TeachingCpu.Proofs.Assembly.Program
import TeachingCpu.Proofs.Source.Scan
import TeachingCpu.Proofs.Text.Number
import TeachingCpu.Proofs.Listing.Coverage
import TeachingCpu.Proofs.Listing.Pieces
import TeachingCpu.Proofs.Assembly.Lay
import TeachingCpu.Proofs.Assembly.Alike
import TeachingCpu.Proofs.Listing.Names
import TeachingCpu.Proofs.Assembly.Relayout
import TeachingCpu.Proofs.Assembly.Operands
import TeachingCpu.Proofs.Assembly.Relisted
import TeachingCpu.Proofs.Assembly.RoundTrip
import TeachingCpu.Proofs.Attempt.Leaves
import TeachingCpu.Proofs.Attempt.Matches
import TeachingCpu.Proofs.Cpu.Compare
import TeachingCpu.Proofs.Cpu.Evolution
import TeachingCpu.Proofs.Cpu.Pairs
import TeachingCpu.Proofs.Service.Dispatch
import TeachingCpu.Proofs.Service.Presentation
import TeachingCpu.Proofs.Machine.Progress
import TeachingCpu.Proofs.Machine.Calls
import TeachingCpu.Proofs.Machine.Fault
import TeachingCpu.Proofs.Machine.LifeCycle
import TeachingCpu.Proofs.Machine.History
import TeachingCpu.Proofs.Machine.Pairs
import TeachingCpu.Proofs.Attempt.Raises
import TeachingCpu.Proofs.Machine.Causes
import TeachingCpu.Proofs.Machine.Fetched
import TeachingCpu.Proofs.Assembly.Outline
import TeachingCpu.Proofs.Assembly.Passes
import TeachingCpu.Proofs.Assembly.Literals
import TeachingCpu.Proofs.Assembly.Reassembly
import TeachingCpu.Proofs.Assembly.NormalForm
import TeachingCpu.Proofs.Machine.Budget
import TeachingCpu.Proofs.Service.Handled
import TeachingCpu.Proofs.Service.Frame
import TeachingCpu.Proofs.Cpu.Writes
import TeachingCpu.Proofs.Cpu.Stack
import TeachingCpu.Proofs.Machine.Steps
import TeachingCpu.Proofs.Machine.Compare
import TeachingCpu.Proofs.Cpu.Arithmetic
import TeachingCpu.Proofs.Machine.Arithmetic
import TeachingCpu.Proofs.Machine.Stack
import TeachingCpu.Proofs.Assembly.Boundaries
import TeachingCpu.Proofs.Machine.ControlFlow
import TeachingCpu.Proofs.Source.Places
import TeachingCpu.Proofs.Assembly.Diagnostics
import TeachingCpu.Proofs.Text.Decolored
import TeachingCpu.Proofs.Debugger.Replies
import TeachingCpu.Proofs.Machine.Presentation
import TeachingCpu.Proofs.Machine.Display
import TeachingCpu.Proofs.Cpu.Footprint
import TeachingCpu.Proofs.Machine.Footprint
import TeachingCpu.Proofs.Cpu.BoundedStack
import TeachingCpu.Proofs.Machine.Overflow
import TeachingCpu.Proofs.Assembly.DataLayout
import TeachingCpu.Proofs.Assembly.PooledLiterals
import TeachingCpu.Proofs.Assembly.DataBlocks
import TeachingCpu.Proofs.Source.Canonical
import TeachingCpu.Proofs.Assembly.LabelOperands
import TeachingCpu.Proofs.Assembly.Content
import TeachingCpu.Proofs.Assembly.Renaming
import TeachingCpu.Proofs.Source.Rewrite
import TeachingCpu.Proofs.Memory.Strings
import TeachingCpu.Proofs.Service.Copies
import TeachingCpu.Proofs.Text.Integer
import TeachingCpu.Proofs.Source.Coverage
import TeachingCpu.Proofs.Attempt.Agree
import TeachingCpu.Proofs.Assembly.Unplaced
import TeachingCpu.Proofs.Source.Spacing
import TeachingCpu.Proofs.Text.Latin1
import TeachingCpu.Proofs.Text.Split
import TeachingCpu.Proofs.Memory.Cells
import TeachingCpu.Proofs.Cpu.Accesses
import TeachingCpu.Proofs.Console.Questions
import TeachingCpu.Proofs.Service.Input
import TeachingCpu.Proofs.Service.Files
import TeachingCpu.Proofs.Files.Paths
import TeachingCpu.Proofs.Machine.Counting
import TeachingCpu.Proofs.Memory.Shares
import TeachingCpu.Proofs.Machine.Accounting
import TeachingCpu.Proofs.Debugger.Commands
import TeachingCpu.Proofs.Debugger.Sessions
import TeachingCpu.Proofs.Report.Dump
import TeachingCpu.Proofs.Source.Rows
import TeachingCpu.Proofs.Listing.Literals
import TeachingCpu.Proofs.Attempt.Strict
import TeachingCpu.Proofs.Memory.Strict
import TeachingCpu.Proofs.Cpu.Strict
import TeachingCpu.Proofs.Service.Strict
import TeachingCpu.Proofs.Machine.Strict
