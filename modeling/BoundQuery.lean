import BoundQuery.Compiler
import BoundQuery.Decimal.Double
import BoundQuery.Decimal.Layout
import BoundQuery.Decimal.Reading
import BoundQuery.Decimal.Shortest
import BoundQuery.Entries
import BoundQuery.Function.Access
import BoundQuery.Function.Basic
import BoundQuery.Function.Builtin
import BoundQuery.Function.Compare
import BoundQuery.Function.Print
import BoundQuery.Function.Registry
import BoundQuery.Json.Basic
import BoundQuery.Json.Number
import BoundQuery.Json.Printer
import BoundQuery.Json.Reader
import BoundQuery.Proofs.Compilation
import BoundQuery.Proofs.Dialects
import BoundQuery.Proofs.Entries
import BoundQuery.Proofs.Fallible
import BoundQuery.Proofs.Function.Comparisons
import BoundQuery.Proofs.Function.Formats
import BoundQuery.Proofs.Function.Slices
import BoundQuery.Proofs.FunctionNames
import BoundQuery.Proofs.Run.Adjacency
import BoundQuery.Proofs.Run.Buffers
import BoundQuery.Proofs.Run.Capturing
import BoundQuery.Proofs.Run.Completion
import BoundQuery.Proofs.Run.Counting
import BoundQuery.Proofs.Run.Deciding
import BoundQuery.Proofs.Run.Depth
import BoundQuery.Proofs.Run.Evaluation
import BoundQuery.Proofs.Run.Frames
import BoundQuery.Proofs.Run.Indexing
import BoundQuery.Proofs.Run.Isolation
import BoundQuery.Proofs.Run.Leniency
import BoundQuery.Proofs.Run.Lockstep
import BoundQuery.Proofs.Run.Lookup
import BoundQuery.Proofs.Run.Marks
import BoundQuery.Proofs.Run.Origins
import BoundQuery.Proofs.Run.Spelled
import BoundQuery.Proofs.Run.Steps
import BoundQuery.Proofs.Run.Traces
import BoundQuery.Proofs.Run.Tracking
import BoundQuery.Proofs.Run.Undefined
import BoundQuery.Proofs.Run.Visits
import BoundQuery.Proofs.Statement.Runs
import BoundQuery.Proofs.Statement.Tokens
import BoundQuery.Proofs.Statement.Whitespace
import BoundQuery.Proofs.Template.Alike
import BoundQuery.Proofs.Template.Answers
import BoundQuery.Proofs.Template.Ascii
import BoundQuery.Proofs.Template.Assembling
import BoundQuery.Proofs.Template.Blame
import BoundQuery.Proofs.Template.ByteReader
import BoundQuery.Proofs.Template.Calls
import BoundQuery.Proofs.Template.Canonical
import BoundQuery.Proofs.Template.Captured
import BoundQuery.Proofs.Template.Checks
import BoundQuery.Proofs.Template.Comments
import BoundQuery.Proofs.Template.Derivations
import BoundQuery.Proofs.Template.Factors
import BoundQuery.Proofs.Template.Faults
import BoundQuery.Proofs.Template.Following
import BoundQuery.Proofs.Template.Hoisting
import BoundQuery.Proofs.Template.Lexical
import BoundQuery.Proofs.Template.Merging
import BoundQuery.Proofs.Template.Nesting
import BoundQuery.Proofs.Template.Numerals
import BoundQuery.Proofs.Template.Parts
import BoundQuery.Proofs.Template.Paths
import BoundQuery.Proofs.Template.Pipelines
import BoundQuery.Proofs.Template.Places
import BoundQuery.Proofs.Template.Quotation
import BoundQuery.Proofs.Template.Readback
import BoundQuery.Proofs.Template.Recapture
import BoundQuery.Proofs.Template.Recutting
import BoundQuery.Proofs.Template.Reparsing
import BoundQuery.Proofs.Template.Rereading
import BoundQuery.Proofs.Template.Scanning
import BoundQuery.Proofs.Template.Scopes
import BoundQuery.Proofs.Template.Segments
import BoundQuery.Proofs.Template.Sites
import BoundQuery.Proofs.Template.Spelling
import BoundQuery.Proofs.Text.Digits
import BoundQuery.Proofs.Text.Lines
import BoundQuery.Proofs.Text.Offsets
import BoundQuery.Proofs.Text.Order
import BoundQuery.Proofs.Text.Words
import BoundQuery.Proofs.Value.Documents
import BoundQuery.Proofs.Value.Items
import BoundQuery.Run.Emission
import BoundQuery.Run.Error
import BoundQuery.Run.Pipeline
import BoundQuery.Run.Walk
import BoundQuery.Settings.Basic
import BoundQuery.Settings.Reader
import BoundQuery.Statement.Dialect
import BoundQuery.Statement.Format
import BoundQuery.Statement.Mark
import BoundQuery.Template.Assembly
import BoundQuery.Template.Capture
import BoundQuery.Template.Check
import BoundQuery.Template.Clause
import BoundQuery.Template.Fault
import BoundQuery.Template.Literal
import BoundQuery.Template.Render
import BoundQuery.Template.Scan
import BoundQuery.Template.Segment
import BoundQuery.Template.Tag
import BoundQuery.Template.Tree
import BoundQuery.Template.Word
import BoundQuery.Text.Bytes
import BoundQuery.Text.Position
import BoundQuery.Text.Quoted
import BoundQuery.Text.Radix
import BoundQuery.Text.Start
import BoundQuery.Text.Words
import BoundQuery.Unicode.Alphabetic
import BoundQuery.Unicode.Blank
import BoundQuery.Unicode.GraphemeExtend
import BoundQuery.Unicode.Ignorable
import BoundQuery.Unicode.Numeric
import BoundQuery.Unicode.Printable
import BoundQuery.Unicode.Ranges
import BoundQuery.Value.Basic
import BoundQuery.Value.Convert
import BoundQuery.Value.Print
