import Scorecard.Text.Blank
import Scorecard.Text.Cut
import Scorecard.Number.Order
import Scorecard.Number.Binary
import Scorecard.Number.Spelling
import Scorecard.Number.Rounding
import Scorecard.Number.Shortest
import Scorecard.Number.Layout
import Scorecard.NameMap
import Scorecard.Operation
import Scorecard.Band
import Scorecard.Element
import Scorecard.Evaluation
import Scorecard.ParseError
import Scorecard.Formula.Token
import Scorecard.Formula.Nesting
import Scorecard.Formula.Classify
import Scorecard.Formula.Chain
import Scorecard.Formula.Parse
import Scorecard.Band.Closing
import Scorecard.Band.Partition
import Scorecard.Catalog
import Scorecard.Config
import Scorecard.Scoring
import Scorecard.Validation
import Scorecard.Ranking
import Scorecard.Report.Amount
import Scorecard.Report.Style
import Scorecard.Report.Breakdown
import Scorecard.Report.Tree
import Scorecard.Report.Table
import Scorecard.Document.Quoted
import Scorecard.Document.Word
import Scorecard.Document
import Scorecard.Document.Json.Number
import Scorecard.Document.Json.Text
import Scorecard.Document.Json.Reader
import Scorecard.Document.Json.Writer
import Scorecard.Document.Yaml.Cursor
import Scorecard.Document.Yaml.Indentation
import Scorecard.Document.Yaml.Scalar
import Scorecard.Document.Yaml.Token
import Scorecard.Document.Yaml.Lexer
import Scorecard.Document.Yaml.BlockScalar
import Scorecard.Document.Yaml.Tokens
import Scorecard.Document.Yaml.Node
import Scorecard.Document.Yaml.Composition
import Scorecard.Document.Yaml.Reader
import Scorecard.Document.Yaml.Writer
import Scorecard.Config.Document
import Scorecard.Report.Listing
import Scorecard.Subjects
import Scorecard.Text.Split
import Scorecard.Path
import Scorecard.Codec
import Scorecard.Codec.Standard
import Scorecard.CommandLine.Arguments
import Scorecard.CommandLine.Files
import Scorecard.CommandLine.Run
import Scorecard.Main
import Scorecard.Proofs.Acceptance
import Scorecard.Proofs.Assignments
import Scorecard.Proofs.Attempt
import Scorecard.Proofs.Chains
import Scorecard.Proofs.Cuts
import Scorecard.Proofs.Definitions
import Scorecard.Proofs.Faults
import Scorecard.Proofs.Interpretation
import Scorecard.Proofs.NumberOrder
import Scorecard.Proofs.Outline
import Scorecard.Proofs.Parentheses
import Scorecard.Proofs.Soundness
import Scorecard.Proofs.Thresholds
import Scorecard.Proofs.Tokens
import Scorecard.Proofs.Grouping
import Scorecard.Proofs.ByteOrder
import Scorecard.Proofs.DepthFirst
import Scorecard.Proofs.Composition
import Scorecard.Proofs.References
import Scorecard.Proofs.ClosedBands
import Scorecard.Proofs.Compilation
import Scorecard.Proofs.Breakdown
import Scorecard.Proofs.Dependence
import Scorecard.Proofs.Seams
import Scorecard.Proofs.Shapes
import Scorecard.Proofs.Reporting
import Scorecard.Proofs.Insertion
import Scorecard.Proofs.Sums
import Scorecard.Proofs.TotalOrder
import Scorecard.Proofs.Warnings
import Scorecard.Proofs.Coverage
import Scorecard.Proofs.RankOrder
import Scorecard.Proofs.Spines
import Scorecard.Proofs.Stores
import Scorecard.Proofs.Requests
import Scorecard.Proofs.RankedSubjects
import Scorecard.Proofs.Sessions
import Scorecard.Proofs.Partners
import Scorecard.Proofs.Slices
import Scorecard.Proofs.Spacing
import Scorecard.Proofs.Numerals
import Scorecard.Proofs.RuleTexts
import Scorecard.Proofs.ClosingLaws
import Scorecard.Proofs.Operands
import Scorecard.Proofs.Spans
import Scorecard.Proofs.Bodies
import Scorecard.Proofs.JsonValues
import Scorecard.Proofs.Digits
import Scorecard.Proofs.ExactValues
import Scorecard.Proofs.Displays
import Scorecard.Proofs.TabLines
import Scorecard.Proofs.Listings
import Scorecard.Proofs.Roundings
import Scorecard.Proofs.Quotients
import Scorecard.Proofs.CompactTexts
import Scorecard.Proofs.Amounts
import Scorecard.Proofs.ScoreColumn
