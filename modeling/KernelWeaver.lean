import KernelWeaver.CType
import KernelWeaver.Code.Emit
import KernelWeaver.Code.MathLibrary
import KernelWeaver.Code.Random
import KernelWeaver.Code.RowLoop
import KernelWeaver.Code.Scope
import KernelWeaver.Code.Stream
import KernelWeaver.Code.StructFields
import KernelWeaver.Code.Template
import KernelWeaver.Compile
import KernelWeaver.Decimal.Binary
import KernelWeaver.Decimal.Shortest
import KernelWeaver.Device.Backend
import KernelWeaver.Device.Config
import KernelWeaver.Device.Cuda
import KernelWeaver.Device.Kernel
import KernelWeaver.Device.Memory
import KernelWeaver.Device.Occupancy
import KernelWeaver.Device.Properties
import KernelWeaver.Diagnostic
import KernelWeaver.Digest.Blake3
import KernelWeaver.Digest.Encoding
import KernelWeaver.Dispatch.Lanes
import KernelWeaver.Error
import KernelWeaver.Fault
import KernelWeaver.Generate.Bindings
import KernelWeaver.Generate.Connectivity
import KernelWeaver.Generate.Dispatch
import KernelWeaver.Generate.ElementInit
import KernelWeaver.Generate.HostUpdate
import KernelWeaver.Generate.Kernel
import KernelWeaver.Generate.Program
import KernelWeaver.Generate.SparseInit
import KernelWeaver.Generate.Structs
import KernelWeaver.Generate.Update
import KernelWeaver.Generate.VarInit
import KernelWeaver.Merge.Group
import KernelWeaver.Merge.Model
import KernelWeaver.Merge.SynapseArrays
import KernelWeaver.Model.Basic
import KernelWeaver.Model.Encoding
import KernelWeaver.Numeric
import KernelWeaver.Printing.Expr
import KernelWeaver.Printing.Stmt
import KernelWeaver.Proofs.Code.AssignedSlots
import KernelWeaver.Proofs.Code.Binding
import KernelWeaver.Proofs.Code.Ensures
import KernelWeaver.Proofs.Code.Expand
import KernelWeaver.Proofs.Code.Failures
import KernelWeaver.Proofs.Code.Flush
import KernelWeaver.Proofs.Code.InPlace
import KernelWeaver.Proofs.Code.Logged
import KernelWeaver.Proofs.Code.Lookups
import KernelWeaver.Proofs.Code.Markers
import KernelWeaver.Proofs.Code.Orderly
import KernelWeaver.Proofs.Code.Overloads
import KernelWeaver.Proofs.Code.Parameters
import KernelWeaver.Proofs.Code.Reached
import KernelWeaver.Proofs.Code.Recording
import KernelWeaver.Proofs.Code.Registration
import KernelWeaver.Proofs.Code.Resolution
import KernelWeaver.Proofs.Code.RowLoop
import KernelWeaver.Proofs.Code.Run
import KernelWeaver.Proofs.Code.Script
import KernelWeaver.Proofs.Code.Sessions
import KernelWeaver.Proofs.Code.Settled
import KernelWeaver.Proofs.Code.SlotDigits
import KernelWeaver.Proofs.Code.Slots
import KernelWeaver.Proofs.Code.StructLayout
import KernelWeaver.Proofs.Code.Succeeds
import KernelWeaver.Proofs.Code.Uses
import KernelWeaver.Proofs.Code.WellFormed
import KernelWeaver.Proofs.Code.Written
import KernelWeaver.Proofs.Compile
import KernelWeaver.Proofs.Decimal.Text
import KernelWeaver.Proofs.Device.BlockSizes
import KernelWeaver.Proofs.Device.ConfigText
import KernelWeaver.Proofs.Device.FirstFit
import KernelWeaver.Proofs.Device.Memory
import KernelWeaver.Proofs.Device.Occupancy
import KernelWeaver.Proofs.Device.Settings
import KernelWeaver.Proofs.Device.Structs
import KernelWeaver.Proofs.Digest.Encoding
import KernelWeaver.Proofs.Digest.Order
import KernelWeaver.Proofs.Fields
import KernelWeaver.Proofs.Inlining
import KernelWeaver.Proofs.Lanes.BatchCode
import KernelWeaver.Proofs.Lanes.BatchStores
import KernelWeaver.Proofs.Lanes.BatchedUpdates
import KernelWeaver.Proofs.Lanes.Batches
import KernelWeaver.Proofs.Lanes.Bijection
import KernelWeaver.Proofs.Lanes.Dispatch
import KernelWeaver.Proofs.Lanes.Launches
import KernelWeaver.Proofs.Lanes.Layout
import KernelWeaver.Proofs.Lanes.Resolve
import KernelWeaver.Proofs.LoopHeads
import KernelWeaver.Proofs.Merge.Group
import KernelWeaver.Proofs.Merge.Names
import KernelWeaver.Proofs.Merge.Partition
import KernelWeaver.Proofs.Merge.Storage
import KernelWeaver.Proofs.Merge.Structure
import KernelWeaver.Proofs.Merge.SynapseArrays
import KernelWeaver.Proofs.Names
import KernelWeaver.Proofs.Outcome
import KernelWeaver.Proofs.Overloading
import KernelWeaver.Proofs.Printing.Factor
import KernelWeaver.Proofs.Printing.Inlining
import KernelWeaver.Proofs.Printing.Literals
import KernelWeaver.Proofs.Printing.LoopHeads
import KernelWeaver.Proofs.Printing.Occurrences
import KernelWeaver.Proofs.Printing.PlainText
import KernelWeaver.Proofs.Printing.Progress
import KernelWeaver.Proofs.Printing.ReadBack
import KernelWeaver.Proofs.Printing.Settled
import KernelWeaver.Proofs.RoundTrip
import KernelWeaver.Proofs.Snippet.Accounting
import KernelWeaver.Proofs.Snippet.Charges
import KernelWeaver.Proofs.Snippet.EnoughSteps
import KernelWeaver.Proofs.Snippet.Expansion
import KernelWeaver.Proofs.Snippet.ExprCompleteness
import KernelWeaver.Proofs.Snippet.ExprSoundness
import KernelWeaver.Proofs.Snippet.Grammar
import KernelWeaver.Proofs.Snippet.Height
import KernelWeaver.Proofs.Snippet.Laws
import KernelWeaver.Proofs.Snippet.Lexemes
import KernelWeaver.Proofs.Snippet.LineNumbers
import KernelWeaver.Proofs.Snippet.NumberForms
import KernelWeaver.Proofs.Snippet.Numbering
import KernelWeaver.Proofs.Snippet.Numerals
import KernelWeaver.Proofs.Snippet.Occurrences
import KernelWeaver.Proofs.Snippet.ParseExpr
import KernelWeaver.Proofs.Snippet.ParseItems
import KernelWeaver.Proofs.Snippet.Positions
import KernelWeaver.Proofs.Snippet.PostOrder
import KernelWeaver.Proofs.Snippet.Reading
import KernelWeaver.Proofs.Snippet.Recovery
import KernelWeaver.Proofs.Snippet.Renaming
import KernelWeaver.Proofs.Snippet.Rescan
import KernelWeaver.Proofs.Snippet.Respelling
import KernelWeaver.Proofs.Snippet.Scoping
import KernelWeaver.Proofs.Snippet.Sites
import KernelWeaver.Proofs.Snippet.Spacing
import KernelWeaver.Proofs.Snippet.StmtCompleteness
import KernelWeaver.Proofs.Snippet.StmtGrammar
import KernelWeaver.Proofs.Snippet.StmtHeight
import KernelWeaver.Proofs.Snippet.StmtReading
import KernelWeaver.Proofs.Snippet.StmtSoundness
import KernelWeaver.Proofs.Snippet.Views
import KernelWeaver.Proofs.Synapses.Arguments
import KernelWeaver.Proofs.Synapses.Execution
import KernelWeaver.Proofs.Synapses.Listing
import KernelWeaver.Proofs.Synapses.Reachable
import KernelWeaver.Proofs.Synapses.Refinement
import KernelWeaver.Proofs.Synapses.Removal
import KernelWeaver.Proofs.Synapses.Rows
import KernelWeaver.Proofs.Synapses.Statement
import KernelWeaver.Proofs.Table
import KernelWeaver.Proofs.Text.Lines
import KernelWeaver.Proofs.TypeText
import KernelWeaver.Proofs.Typing.Alike
import KernelWeaver.Proofs.Typing.Balance
import KernelWeaver.Proofs.Typing.Choice
import KernelWeaver.Proofs.Typing.CompoundAssignment
import KernelWeaver.Proofs.Typing.Constness
import KernelWeaver.Proofs.Typing.Derivation
import KernelWeaver.Proofs.Typing.Occurrences
import KernelWeaver.Proofs.Typing.Parentheses
import KernelWeaver.Proofs.Typing.Parts
import KernelWeaver.Proofs.Typing.Soundness
import KernelWeaver.Proofs.Typing.StmtDerivation
import KernelWeaver.Proofs.Typing.StmtOccurrences
import KernelWeaver.Proofs.Typing.StmtSoundness
import KernelWeaver.Proofs.Typing.Synthesis
import KernelWeaver.Snippet.Cursor
import KernelWeaver.Snippet.ExprParser
import KernelWeaver.Snippet.Lexer
import KernelWeaver.Snippet.StmtParser
import KernelWeaver.Snippet.Token
import KernelWeaver.Snippet.Tree
import KernelWeaver.Span
import KernelWeaver.Synapses.Array
import KernelWeaver.Synapses.RaggedRows
import KernelWeaver.Synapses.RowCode
import KernelWeaver.Table
import KernelWeaver.Text.Blank
import KernelWeaver.Text.WordChar
import KernelWeaver.TypeText
import KernelWeaver.Typing.Checker
import KernelWeaver.Typing.Expr
import KernelWeaver.Typing.Rules
import KernelWeaver.Typing.Stmt
