import NoteQuery.Calendar.Date
import NoteQuery.Calendar.Iso
import NoteQuery.Calendar.Moment
import NoteQuery.Calendar.Written
import NoteQuery.CommandLine.Arguments
import NoteQuery.CommandLine.Run
import NoteQuery.CommandLine.Scan
import NoteQuery.Eval.Builtin
import NoteQuery.Eval.Context
import NoteQuery.Eval.DateFunctions
import NoteQuery.Eval.Duration
import NoteQuery.Eval.Evaluate
import NoteQuery.Eval.Failure
import NoteQuery.Eval.Library
import NoteQuery.Eval.NumberFunctions
import NoteQuery.Eval.Operator
import NoteQuery.Eval.TextFunctions
import NoteQuery.Expr.Basic
import NoteQuery.Expr.Lexer
import NoteQuery.Expr.Parser
import NoteQuery.Expr.Token
import NoteQuery.Files.Node
import NoteQuery.Files.Path
import NoteQuery.Json.Basic
import NoteQuery.Json.Reader
import NoteQuery.Log.Basic
import NoteQuery.Main
import NoteQuery.Markup.Basic
import NoteQuery.Note.Fields
import NoteQuery.Note.Frontmatter
import NoteQuery.Note.Load
import NoteQuery.Note.Outlink
import NoteQuery.Number.Basic
import NoteQuery.Number.Binary64
import NoteQuery.Number.Decimal
import NoteQuery.Number.Numeral
import NoteQuery.Order.Merge
import NoteQuery.Order.Search
import NoteQuery.Order.Sort
import NoteQuery.Output.Basic
import NoteQuery.Output.Grid
import NoteQuery.Output.Printed
import NoteQuery.Output.Style
import NoteQuery.Output.Wrap
import NoteQuery.Pattern.Basic
import NoteQuery.Pattern.Matching
import NoteQuery.Pattern.Reader
import NoteQuery.Pattern.Template
import NoteQuery.Proofs.Calendar.Order
import NoteQuery.Proofs.Eval.CallFree
import NoteQuery.Proofs.Eval.Calls
import NoteQuery.Proofs.Eval.Mentions
import NoteQuery.Proofs.Eval.Sites
import NoteQuery.Proofs.Expr.Combinators
import NoteQuery.Proofs.Expr.Completeness
import NoteQuery.Proofs.Expr.Connected
import NoteQuery.Proofs.Expr.Dotted
import NoteQuery.Proofs.Expr.Grammar
import NoteQuery.Proofs.Expr.Layers
import NoteQuery.Proofs.Expr.Lexing
import NoteQuery.Proofs.Expr.Nesting
import NoteQuery.Proofs.Expr.Operands
import NoteQuery.Proofs.Expr.Printing
import NoteQuery.Proofs.Expr.Recognition
import NoteQuery.Proofs.Expr.Relexing
import NoteQuery.Proofs.Expr.RoundTrip
import NoteQuery.Proofs.Expr.Segments
import NoteQuery.Proofs.Expr.Soundness
import NoteQuery.Proofs.Expr.Stopping
import NoteQuery.Proofs.Note.Loading
import NoteQuery.Proofs.Note.Outside
import NoteQuery.Proofs.Number.Overflow
import NoteQuery.Proofs.Order.Failing
import NoteQuery.Proofs.Order.Leaders
import NoteQuery.Proofs.Order.Merging
import NoteQuery.Proofs.Order.Relabelling
import NoteQuery.Proofs.Order.Sorting
import NoteQuery.Proofs.Order.Stability
import NoteQuery.Proofs.Order.Turning
import NoteQuery.Proofs.Outcome.Logged
import NoteQuery.Proofs.Outcome.Yields
import NoteQuery.Proofs.Query.Brackets
import NoteQuery.Proofs.Query.Cells
import NoteQuery.Proofs.Query.Columns
import NoteQuery.Proofs.Query.Cutting
import NoteQuery.Proofs.Query.Fields
import NoteQuery.Proofs.Query.Filtering
import NoteQuery.Proofs.Query.Grouping
import NoteQuery.Proofs.Query.Headers
import NoteQuery.Proofs.Query.Keywords
import NoteQuery.Proofs.Query.Layout
import NoteQuery.Proofs.Query.Masking
import NoteQuery.Proofs.Query.Mistakes
import NoteQuery.Proofs.Query.Partition
import NoteQuery.Proofs.Query.Reading
import NoteQuery.Proofs.Query.Rowwise
import NoteQuery.Proofs.Query.Sorting
import NoteQuery.Proofs.Query.Stages
import NoteQuery.Proofs.Query.Words
import NoteQuery.Proofs.Row.Flattening
import NoteQuery.Proofs.Row.Lookup
import NoteQuery.Proofs.Text.Blanks
import NoteQuery.Proofs.Text.Characters
import NoteQuery.Proofs.Text.Digits
import NoteQuery.Proofs.Text.Pieces
import NoteQuery.Proofs.Value.Bodies
import NoteQuery.Proofs.Value.Dates
import NoteQuery.Proofs.Value.Keys
import NoteQuery.Proofs.Value.Origins
import NoteQuery.Proofs.Value.Ranks
import NoteQuery.Query.Aggregate
import NoteQuery.Query.Clause
import NoteQuery.Query.Field
import NoteQuery.Query.Group
import NoteQuery.Query.Mask
import NoteQuery.Query.Run
import NoteQuery.Query.Source
import NoteQuery.Row.Basic
import NoteQuery.Row.File
import NoteQuery.Row.Task
import NoteQuery.Settings.Basic
import NoteQuery.Settings.Load
import NoteQuery.Text.Blank
import NoteQuery.Text.Case
import NoteQuery.Text.Digit
import NoteQuery.Text.Identifier
import NoteQuery.Text.Line
import NoteQuery.Text.Printable
import NoteQuery.Text.Quoted
import NoteQuery.Text.Search
import NoteQuery.Text.Similar
import NoteQuery.Text.Utf8
import NoteQuery.Text.Width
import NoteQuery.Text.Word
import NoteQuery.Value.Basic
import NoteQuery.Value.Compare
import NoteQuery.Value.Key
import NoteQuery.Value.Text
import NoteQuery.Yaml.Cursor
import NoteQuery.Yaml.Document
import NoteQuery.Yaml.Layout
import NoteQuery.Yaml.Message
import NoteQuery.Yaml.Node
import NoteQuery.Yaml.Scalar
import NoteQuery.Yaml.Timestamp
import NoteQuery.Yaml.Token
import NoteQuery.Proofs.CommandLine.SettingsName
import NoteQuery.Proofs.Eval.Renaming
import NoteQuery.Proofs.Json.Grammar
import NoteQuery.Proofs.Json.Reading
import NoteQuery.Proofs.Eval.WellFormed
import NoteQuery.Proofs.Output.Interchange
import NoteQuery.Proofs.Settings.Loading
import NoteQuery.Proofs.Expr.Locality
import NoteQuery.Proofs.Expr.Respelling
import NoteQuery.Proofs.Expr.Spans
import NoteQuery.Proofs.Expr.Viable
import NoteQuery.Proofs.Value.Coherence
import NoteQuery.Proofs.Query.Extremes
import NoteQuery.Proofs.Row.Writing
import NoteQuery.Proofs.Query.Rearranging
import NoteQuery.Proofs.Eval.Fusion
import NoteQuery.Proofs.Outcome.Together
import NoteQuery.Proofs.Query.QuotedText
import NoteQuery.Proofs.Query.Rollup
import NoteQuery.Proofs.Query.SortedColumn
import NoteQuery.Proofs.Number.Whole
import NoteQuery.Proofs.Eval.Integers
import NoteQuery.Proofs.Eval.Dates
import NoteQuery.Proofs.Eval.Durations
import NoteQuery.Proofs.Eval.Splitting
import NoteQuery.Proofs.Note.Frontmatter
import NoteQuery.Proofs.Row.Tasks
import NoteQuery.Proofs.Note.Outlinks
import NoteQuery.Proofs.Value.Canonical
import NoteQuery.Proofs.CommandLine.Options
import NoteQuery.Proofs.Query.Sources
