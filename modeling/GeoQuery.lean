import GeoQuery.Decimal.Nearest
import GeoQuery.Decimal.Written
import GeoQuery.Json.Basic
import GeoQuery.Json.Compact
import GeoQuery.Text.Printable
import GeoQuery.Json.Fault
import GeoQuery.Json.Numeral
import GeoQuery.Json.Scan
import GeoQuery.Json.Brackets
import GeoQuery.Json.Reader
import GeoQuery.Json.Skip
import GeoQuery.Shape.Basic
import GeoQuery.Shape.Tree
import GeoQuery.Shape.Text
import GeoQuery.Shape.Write
import GeoQuery.Argument
import GeoQuery.Clause.Filters
import GeoQuery.Clause.OutputFormat
import GeoQuery.Command
import GeoQuery.Clause.Area
import GeoQuery.Clause.Payload
import GeoQuery.Clause.Selection
import GeoQuery.Fence
import GeoQuery.Key
import GeoQuery.Query
import GeoQuery.Cli.Batch
import GeoQuery.Cli.Options
import GeoQuery.Cli.Run
import GeoQuery.Main
import GeoQuery.Proofs.Outcome
import GeoQuery.Proofs.Binary64.Rounding
import GeoQuery.Proofs.Decimal.Value
import GeoQuery.Proofs.Decimal.Notation
import GeoQuery.Proofs.Decimal.Token
import GeoQuery.Proofs.Json.Numeral
import GeoQuery.Proofs.Json.InRange
import GeoQuery.Proofs.Json.Scan
import GeoQuery.Proofs.Json.Spelling
import GeoQuery.Proofs.Json.Rows
import GeoQuery.Proofs.Json.Render
import GeoQuery.Proofs.Json.Tree
import GeoQuery.Proofs.Json.Cut
import GeoQuery.Proofs.Json.Resume
import GeoQuery.Proofs.Json.Places
import GeoQuery.Proofs.Json.Reordered
import GeoQuery.Proofs.Json.Printed
import GeoQuery.Proofs.Argument
import GeoQuery.Proofs.Command.Groups
import GeoQuery.Proofs.Clause.Tokens
import GeoQuery.Proofs.Shape.Written
import GeoQuery.Proofs.Shape.Collapse
import GeoQuery.Proofs.Shape.RoundTrip
import GeoQuery.Proofs.Shape.Resume
import GeoQuery.Proofs.Shape.Reordered
import GeoQuery.Proofs.Query.Visible
import GeoQuery.Proofs.Query.Layout
import GeoQuery.Proofs.Query.Calls
import GeoQuery.Proofs.Query.Readers
import GeoQuery.Proofs.Query.RoundTrip
import GeoQuery.Proofs.Query.Accepted
import GeoQuery.Proofs.Query.Masked
import GeoQuery.Proofs.Query.Spelled
import GeoQuery.Proofs.Query.Truncated
import GeoQuery.Proofs.Query.Strings
import GeoQuery.Proofs.Query.Words
import GeoQuery.Proofs.Cli.Batch
import GeoQuery.Proofs.Cli.Lines
import GeoQuery.Proofs.Binary64.Spacing
import GeoQuery.Proofs.Decimal.Rational
import GeoQuery.Proofs.Decimal.Shortest
import GeoQuery.Proofs.Decimal.Canonical
import GeoQuery.Proofs.Json.Ordinary
import GeoQuery.Proofs.Json.Canonical
import GeoQuery.Proofs.Query.Survival
import GeoQuery.Proofs.Command.RoundTrip
import GeoQuery.Proofs.Cli.JsonLines
import GeoQuery.Proofs.Json.Context
import GeoQuery.Proofs.Shape.Place
import GeoQuery.Proofs.Query.Shown
import GeoQuery.Proofs.Query.Overwrites
import GeoQuery.Proofs.Shape.Integers
import GeoQuery.Proofs.Json.Sorted
import GeoQuery.Proofs.Query.Integers
import GeoQuery.Proofs.Query.Alike
import GeoQuery.Proofs.Json.Unambiguous
import GeoQuery.Proofs.Json.Faithful
import GeoQuery.Proofs.Query.Geometry
import GeoQuery.Proofs.Decimal.Minimal
import GeoQuery.Proofs.Json.Significant
