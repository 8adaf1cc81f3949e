import Criterion.Operator
import Criterion.Token
import Criterion.Decimal
import Criterion.Expr
import Criterion.Expr.Parse
import Criterion.Expr.Encoding
import Criterion.Expr.Evaluate
import Criterion.Expr.Verdict
import Criterion.Binary64
import Criterion.Binary64.Scaling
import Criterion.Binary64.Shortest
import Criterion.Numeral
import Criterion.Text
import Criterion.Text.Alphanumeric
import Criterion.Pattern
import Criterion.Pattern.Bracket
import Criterion.Pattern.Group
import Criterion.Wording
import Criterion.Path
import Criterion.Json
import Criterion.Json.Lexeme
import Criterion.Json.Read
import Criterion.Json.Record
import Criterion.Json.Write
import Criterion.Catalog
import Criterion.Catalog.Snapshot
import Criterion.Catalog.Shelf
import Criterion.Disk
import Criterion.Registry
import Criterion.Yaml.Cursor
import Criterion.Yaml.Scalar
import Criterion.Yaml.Layout
import Criterion.Yaml.Node
import Criterion.Yaml.Record
import Criterion.Settings
import Criterion.Settings.Placeholder
import Criterion.Settings.LogFilter
import Criterion.Settings.Validate
import Criterion.Settings.Decode
import Criterion.Settings.Load
import Criterion.Command
import Criterion.Command.Arguments
import Criterion.Command.Run
import Criterion.Main
import Criterion.Proofs.Text
import Criterion.Proofs.Decimal
import Criterion.Proofs.Numeral
import Criterion.Proofs.Binary64
import Criterion.Proofs.Shortest
import Criterion.Proofs.Rounding
import Criterion.Proofs.Scaling
import Criterion.Proofs.Grammar
import Criterion.Proofs.Parsing
import Criterion.Proofs.Outline
import Criterion.Proofs.Reach
import Criterion.Proofs.Lexing
import Criterion.Proofs.Extent
import Criterion.Proofs.Rendering
import Criterion.Proofs.Json.Reading
import Criterion.Proofs.Json.Scan
import Criterion.Proofs.Json.Writing
import Criterion.Proofs.Json.Depth
import Criterion.Proofs.Json.Spelling
import Criterion.Proofs.Json.Prefix
import Criterion.Proofs.Json.Canonical
import Criterion.Proofs.Json.Number
import Criterion.Proofs.Json.Finite
import Criterion.Proofs.Encoding
import Criterion.Proofs.Location
import Criterion.Proofs.Decoding
import Criterion.Proofs.Readers
import Criterion.Proofs.Snapshot
import Criterion.Proofs.Catalog
import Criterion.Proofs.Opening
import Criterion.Proofs.Disk
import Criterion.Proofs.Shelf
import Criterion.Proofs.Respelling
import Criterion.Proofs.Preprocessing
import Criterion.Proofs.Registry
import Criterion.Proofs.Consistency
import Criterion.Proofs.History
import Criterion.Proofs.Format
import Criterion.Proofs.Durability
import Criterion.Proofs.Dependence
import Criterion.Proofs.Blame
import Criterion.Proofs.Coercion
import Criterion.Proofs.Integers
import Criterion.Proofs.Chain
import Criterion.Proofs.Erasure
import Criterion.Proofs.Footprint
import Criterion.Proofs.Boundary
import Criterion.Proofs.Yield
import Criterion.Proofs.Fusion
import Criterion.Proofs.Spacing
import Criterion.Proofs.Refusal
import Criterion.Proofs.Gap
import Criterion.Proofs.Sharing
import Criterion.Proofs.Placeholder
import Criterion.Proofs.Report
import Criterion.Proofs.Output
import Criterion.Proofs.Path
import Criterion.Proofs.Listing
