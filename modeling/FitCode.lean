import FitCode.Code.Line
import FitCode.Code.Listing
import FitCode.Datum
import FitCode.Decimal.Binary
import FitCode.Decimal.Numeral
import FitCode.Decimal.Scientific
import FitCode.Decimal.Shortest
import FitCode.Fault
import FitCode.Function
import FitCode.Graph.Basic
import FitCode.Graph.Build
import FitCode.Graph.Description
import FitCode.Graph.Evaluation
import FitCode.Graph.Query
import FitCode.Graph.Reach
import FitCode.Identity
import FitCode.Lowering.Argument
import FitCode.Lowering.Command
import FitCode.Lowering.Draft
import FitCode.Lowering.Loop
import FitCode.Lowering.Naming
import FitCode.Lowering.Node
import FitCode.Lowering.Resolve
import FitCode.Lowering.Session
import FitCode.Lowering.Writing
import FitCode.Numeric.Density
import FitCode.Numeric.Exponential
import FitCode.Numeric.Input
import FitCode.Numeric.Scalar
import FitCode.Numeric.Tensor
import FitCode.Numeric.Value
import FitCode.Options
import FitCode.Program.Diagnosis
import FitCode.Program.Grammar.Basic
import FitCode.Program.Grammar.Match
import FitCode.Program.Grammar.Rules
import FitCode.Program.Literal
import FitCode.Program.Load
import FitCode.Program.Parser
import FitCode.Program.Run
import FitCode.Program.Scan
import FitCode.Program.Token
import FitCode.Program.Tree
import FitCode.Proofs.Code.Execution
import FitCode.Proofs.Code.Item
import FitCode.Proofs.Code.Layout
import FitCode.Proofs.Code.Lines
import FitCode.Proofs.Code.Meaning
import FitCode.Proofs.Code.Mention
import FitCode.Proofs.Code.Running
import FitCode.Proofs.Code.Scope
import FitCode.Proofs.Code.Snippet
import FitCode.Proofs.Code.Source
import FitCode.Proofs.Code.Trees
import FitCode.Proofs.Decimal.Characters
import FitCode.Proofs.Decimal.Written
import FitCode.Proofs.Graph.Dependence
import FitCode.Proofs.Graph.Largest
import FitCode.Proofs.Graph.Measure
import FitCode.Proofs.Graph.Paths
import FitCode.Proofs.Graph.RenamedSizes
import FitCode.Proofs.Graph.Renaming
import FitCode.Proofs.Graph.Typed
import FitCode.Proofs.Lowering.Agreement
import FitCode.Proofs.Lowering.Anchored
import FitCode.Proofs.Lowering.Answered
import FitCode.Proofs.Lowering.Balance
import FitCode.Proofs.Lowering.Bindings
import FitCode.Proofs.Lowering.Body
import FitCode.Proofs.Lowering.Builds
import FitCode.Proofs.Lowering.Columns
import FitCode.Proofs.Lowering.Composition
import FitCode.Proofs.Lowering.Cycles
import FitCode.Proofs.Lowering.Deep
import FitCode.Proofs.Lowering.EntryCode
import FitCode.Proofs.Lowering.Entrywise
import FitCode.Proofs.Lowering.Fits
import FitCode.Proofs.Lowering.Fresh
import FitCode.Proofs.Lowering.Gives
import FitCode.Proofs.Lowering.History
import FitCode.Proofs.Lowering.Hooks
import FitCode.Proofs.Lowering.Invariant
import FitCode.Proofs.Lowering.Isomorphic
import FitCode.Proofs.Lowering.Levels
import FitCode.Proofs.Lowering.Lifting
import FitCode.Proofs.Lowering.Lookup
import FitCode.Proofs.Lowering.LoopSteps
import FitCode.Proofs.Lowering.Means
import FitCode.Proofs.Lowering.Memo
import FitCode.Proofs.Lowering.Minting
import FitCode.Proofs.Lowering.Mirror
import FitCode.Proofs.Lowering.Naming
import FitCode.Proofs.Lowering.Nesting
import FitCode.Proofs.Lowering.OneLoop
import FitCode.Proofs.Lowering.Paired
import FitCode.Proofs.Lowering.Placement
import FitCode.Proofs.Lowering.Progress
import FitCode.Proofs.Lowering.Readable
import FitCode.Proofs.Lowering.Reducers
import FitCode.Proofs.Lowering.Refine
import FitCode.Proofs.Lowering.Requests
import FitCode.Proofs.Lowering.Restored
import FitCode.Proofs.Lowering.Safety
import FitCode.Proofs.Lowering.Scope
import FitCode.Proofs.Lowering.Settled
import FitCode.Proofs.Lowering.Shelves
import FitCode.Proofs.Lowering.Sketch
import FitCode.Proofs.Lowering.Steps
import FitCode.Proofs.Lowering.Written
import FitCode.Proofs.Numeric.Entries
import FitCode.Proofs.Numeric.Exact
import FitCode.Proofs.Numeric.Mixture
import FitCode.Proofs.Options
import FitCode.Proofs.Program.Numerals
import FitCode.Proofs.Program.Parsing
import FitCode.Proofs.Program.Passages
import FitCode.Proofs.Program.Scanning
import FitCode.Proofs.Program.Spelling
import FitCode.Proofs.Text.Arithmetic
import FitCode.Proofs.Text.Form
import FitCode.Proofs.Text.Names
import FitCode.Proofs.Text.Outline
import FitCode.Script
import FitCode.Sizes
import FitCode.Text.Blank
import FitCode.Text.CharSet
import FitCode.Text.Digit
import FitCode.Text.Identifier
import FitCode.Text.Margin
import FitCode.Text.Normal
import FitCode.Text.Quoted
import FitCode.Text.Replace
import FitCode.Text.Subject
import FitCode.Text.Table.Hidden
import FitCode.Text.Table.Identifier
import FitCode.Text.Table.Letter
import FitCode.Text.Table.Normal
import FitCode.Text.Table.Numeral
import FitCode.Text.Template
import FitCode.Text.Word
