import TernLang.Diagnostic
import TernLang.Digest
import TernLang.Editor
import TernLang.Environment
import TernLang.Eval
import TernLang.Fault
import TernLang.Heap
import TernLang.Index
import TernLang.Interpreter
import TernLang.Session
import TernLang.Lists
import TernLang.Number.Binary
import TernLang.Number.Decimal
import TernLang.Number.Text
import TernLang.Operator
import TernLang.Parser.Cursor
import TernLang.Parser.Error
import TernLang.Parser.Expression
import TernLang.Parser.Statement
import TernLang.Proofs.Lines
import TernLang.Proofs.Parser.Moves
import TernLang.Settings
import TernLang.Sorting
import TernLang.Sorting.Merge
import TernLang.Sorting.Run
import TernLang.Sorting.Search
import TernLang.Syntax
import TernLang.Text.Blank
import TernLang.Text.Digits
import TernLang.Text.Lines
import TernLang.Text.Printable
import TernLang.Text.Quoted
import TernLang.Text.Ranges
import TernLang.Text.Word
import TernLang.Token
import TernLang.Token.Lexer
import TernLang.Value
import TernLang.Value.Equality
import TernLang.Value.Render
import TernLang.Proofs.Parser.Simulation
import TernLang.Proofs.Parser.Simulation.Expression
import TernLang.Proofs.Parser.Simulation.Statement
import TernLang.Proofs.Parser.Room
import TernLang.Proofs.Grammar
import TernLang.Proofs.Parser.Reading
import TernLang.Proofs.Parser.Soundness.Expression
import TernLang.Proofs.Parser.Soundness.Statement
import TernLang.Proofs.Parser.Completeness.Expression
import TernLang.Proofs.Parser.Completeness.Statement
import TernLang.Proofs.Scope
import TernLang.Proofs.Scope.Heap
import TernLang.Proofs.Scope.Safety
import TernLang.Proofs.Scope.Run
import TernLang.Proofs.Eval.Lines
import TernLang.Proofs.Parser.Lines
import TernLang.Proofs.Eval.Simulation
import TernLang.Proofs.Eval.Simulation.Program
import TernLang.Proofs.Layout
import TernLang.Proofs.Limits
import TernLang.Proofs.Sorting.Natural
import TernLang.Proofs.Nodes
import TernLang.Proofs.Eval.Correspondence
import TernLang.Proofs.Eval.Correspondence.Readings
import TernLang.Proofs.Eval.Correspondence.Program
import TernLang.Proofs.Confinement
import TernLang.Proofs.Heap.Renaming
import TernLang.Proofs.Noninterference
import TernLang.Proofs.Grammar.Spans
import TernLang.Proofs.Token.Lines
import TernLang.Proofs.Diagnostics
import TernLang.Proofs.Eval.Spares
import TernLang.Proofs.Eval.Refusal
import TernLang.Proofs.Eval.Returns
import TernLang.Proofs.CallDepth
import TernLang.Proofs.Eval.Frames
import TernLang.Proofs.Declarations
import TernLang.Proofs.Endings
import TernLang.Proofs.Returns
import TernLang.Proofs.Parser.Excerpt
import TernLang.Proofs.Parser.Excerpt.Expression
import TernLang.Proofs.Parser.Excerpt.Statement
import TernLang.Proofs.Parser.Pieces
import TernLang.Proofs.Parser.Recovery
import TernLang.Proofs.Recovery
import TernLang.Proofs.Documents
import TernLang.Proofs.Sessions
import TernLang.Proofs.Parser.Braces
import TernLang.Proofs.Parser.Tasks
import TernLang.Proofs.Parser.Losses
import TernLang.Proofs.Blocks
import TernLang.Proofs.Heap.Chains
import TernLang.Proofs.Eval.Links
import TernLang.Proofs.Eval.Grounded
import TernLang.Proofs.Integrity
import TernLang.Proofs.Token.Lexemes
import TernLang.Proofs.Token.Steps
import TernLang.Proofs.Token.Scan
import TernLang.Proofs.Munch
import TernLang.Proofs.Respacing
import TernLang.Proofs.Number.Equality
import TernLang.Proofs.Heap.Bisimilarity
import TernLang.Proofs.Equality
import TernLang.Proofs.Number.Order
import TernLang.Proofs.Sorting.Borders
import TernLang.Proofs.Sorting.Merging
import TernLang.Proofs.Sorting.Runs
import TernLang.Proofs.Sorting.Waiting
import TernLang.Proofs.Sorting.Stable
import TernLang.Proofs.Sorting
import TernLang.Proofs.Number.Bits
import TernLang.Proofs.Printing
import TernLang.Proofs.EqualTexts
import TernLang.Proofs.Number.Rounding
import TernLang.Proofs.Number.Shortest
import TernLang.Proofs.Number.Numerals
import TernLang.Proofs.RoundTrip
import TernLang.Proofs.Number.Whole
import TernLang.Proofs.Heap.Lists
import TernLang.Proofs.Lists.Bounds
import TernLang.Proofs.Lists.Positions
import TernLang.Proofs.Lists.Slices
import TernLang.Proofs.Lists.Effects
import TernLang.Proofs.Parser.Thrift
import TernLang.Proofs.Parser.Thrift.Statement
import TernLang.Proofs.Progress
import TernLang.Proofs.EndOfInput
import TernLang.Proofs.ForLoops
import TernLang.Proofs.Index.Declared
import TernLang.Proofs.Parser.Heads
import TernLang.Proofs.Index.Symbols
import TernLang.Proofs.Token.Places
import TernLang.Proofs.Index.Search
import TernLang.Proofs.Index.Columns
import TernLang.Proofs.Forest
import TernLang.Proofs.Problems
import TernLang.Proofs.Grammar.Neighbours
import TernLang.Proofs.Words
import TernLang.Proofs.Parser.Nesting
import TernLang.Proofs.Index.Depth
