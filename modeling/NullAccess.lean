import NullAccess.Access
import NullAccess.Analysis
import NullAccess.Binding.Basic
import NullAccess.Binding.Classify
import NullAccess.Binding.Declaration
import NullAccess.Command.Arguments
import NullAccess.Command.Basic
import NullAccess.Command.Run
import NullAccess.Config
import NullAccess.Console.Layout
import NullAccess.Console.Ledger
import NullAccess.Console.Markup
import NullAccess.Console.Report
import NullAccess.Console.Screen
import NullAccess.Decimal.Basic
import NullAccess.Decimal.Shortest
import NullAccess.Drift.Basic
import NullAccess.Drift.Validate
import NullAccess.Fault
import NullAccess.Files.Discover
import NullAccess.Files.Ignore
import NullAccess.Files.Path
import NullAccess.Files.Tree
import NullAccess.Finding.Basic
import NullAccess.Finding.Filter
import NullAccess.Finding.Fix
import NullAccess.Finding.Generate
import NullAccess.Framework
import NullAccess.Guard.Find
import NullAccess.Guard.Shape
import NullAccess.Guard.Zone
import NullAccess.Json.Basic
import NullAccess.Json.Fit
import NullAccess.Json.Printer
import NullAccess.Json.Reader
import NullAccess.Ledger.Approval
import NullAccess.Ledger.Basic
import NullAccess.Ledger.Store
import NullAccess.Main
import NullAccess.Marker.Basic
import NullAccess.Marker.Read
import NullAccess.Pattern.Basic
import NullAccess.Pattern.Class
import NullAccess.Pattern.Flaw
import NullAccess.Pattern.Lead
import NullAccess.Pattern.Machine
import NullAccess.Pattern.Mode
import NullAccess.Pattern.Reader
import NullAccess.Pattern.Search
import NullAccess.Report
import NullAccess.Rule.Basic
import NullAccess.Rule.Evaluate
import NullAccess.Rule.Load
import NullAccess.Rule.Mask
import NullAccess.Rule.Shipped
import NullAccess.Scan
import NullAccess.Scope
import NullAccess.Source.Comment
import NullAccess.Source.Extract
import NullAccess.Source.Parameter
import NullAccess.Stop
import NullAccess.Text.Base64
import NullAccess.Text.Blank
import NullAccess.Text.Case
import NullAccess.Text.Digit
import NullAccess.Text.Fold
import NullAccess.Text.Lines
import NullAccess.Text.Quoted
import NullAccess.Text.Slice
import NullAccess.Text.Unseen
import NullAccess.Text.Utf8
import NullAccess.Text.Word
import NullAccess.Warning
import NullAccess.Yaml.Cursor
import NullAccess.Yaml.Failure
import NullAccess.Yaml.Form
import NullAccess.Yaml.Kind
import NullAccess.Yaml.Lexer
import NullAccess.Yaml.Load
import NullAccess.Yaml.Node
import NullAccess.Yaml.Reader
import NullAccess.Yaml.Scalar
import NullAccess.Yaml.Tag
import NullAccess.Yaml.Text
import NullAccess.Yaml.Token
import NullAccess.Proofs.Drift.Judgement
import NullAccess.Proofs.Drift.Sequence
import NullAccess.Proofs.Drift.Stages
import NullAccess.Proofs.Drift.Faults
import NullAccess.Proofs.Named
import NullAccess.Proofs.Json.Sorted
import NullAccess.Proofs.Json.RoundTrip
import NullAccess.Proofs.Json.Bounds
import NullAccess.Proofs.Json.Distinct
import NullAccess.Proofs.Report.Merge
import NullAccess.Proofs.Files.Replace
import NullAccess.Proofs.Report.Partition
import NullAccess.Proofs.Report.Suppression
import NullAccess.Proofs.Ledger.Approve
import NullAccess.Proofs.Ledger.Codec
import NullAccess.Proofs.Ledger.Operation
import NullAccess.Proofs.Report.Approval
import NullAccess.Proofs.Ledger.Reload
import NullAccess.Proofs.Ledger.Atomic
import NullAccess.Proofs.Ledger.Persistence
import NullAccess.Proofs.Ledger.Run
import NullAccess.Proofs.Ledger.Identity
import NullAccess.Proofs.Ledger.Place
import NullAccess.Proofs.Drift.Snapshot
import NullAccess.Proofs.Drift.Insertion
import NullAccess.Proofs.Marker.Discovery
import NullAccess.Proofs.Sync.Walk
import NullAccess.Proofs.Sync.Again
import NullAccess.Proofs.Sync.Account
import NullAccess.Proofs.Pattern.Matches
import NullAccess.Proofs.Analysis.Declared
import NullAccess.Proofs.Analysis.LongRead
import NullAccess.Proofs.Analysis.Findings
import NullAccess.Proofs.Analysis.Blocks
import NullAccess.Proofs.Analysis.Zones
import NullAccess.Proofs.Analysis.Prefix
import NullAccess.Proofs.Scope.Letters
import NullAccess.Proofs.Scope.Balance
import NullAccess.Proofs.Scope.Matching
import NullAccess.Proofs.Scope.Enclosing
import NullAccess.Proofs.Analysis.Names
import NullAccess.Proofs.Text.Padding
import NullAccess.Proofs.Marker.Layout
import NullAccess.Proofs.Drift.Layout
import NullAccess.Proofs.Pattern.Padded
import NullAccess.Proofs.Pattern.SearchPadded
import NullAccess.Proofs.Pattern.Reads
import NullAccess.Proofs.Analysis.Rewording
import NullAccess.Proofs.Analysis.Comments
import NullAccess.Proofs.Indent.Patterns
import NullAccess.Proofs.Indent.Margins
import NullAccess.Proofs.Indent.Declarations
import NullAccess.Proofs.Indent.Guards
import NullAccess.Proofs.Indent.Accesses
import NullAccess.Proofs.Indent.Findings
import NullAccess.Proofs.Analysis.Shadowing
import NullAccess.Proofs.Scope.Partners
import NullAccess.Proofs.Guard.Reach
import NullAccess.Proofs.Analysis.TryBlocks
import NullAccess.Proofs.Rule.Masking
import NullAccess.Proofs.Framework.Exemption
import NullAccess.Proofs.Framework.Detection
import NullAccess.Proofs.Framework.Uncovering
import NullAccess.Proofs.Source.Parameters
import NullAccess.Proofs.Rule.Precedence
import NullAccess.Proofs.Json.Canonical
import NullAccess.Proofs.Ledger.Opening
import NullAccess.Proofs.Config.Overrides
import NullAccess.Proofs.Ledger.Frame
import NullAccess.Proofs.Ledger.Dating
import NullAccess.Proofs.Files.Spelling
import NullAccess.Proofs.Files.Targets
import NullAccess.Proofs.Command.LedgerName
import NullAccess.Proofs.Marker.Blocks
import NullAccess.Proofs.Pattern.Searched
import NullAccess.Proofs.Pattern.Preferred
import NullAccess.Proofs.Marker.Mention
import NullAccess.Proofs.Marker.Notice
import NullAccess.Proofs.Marker.Written
import NullAccess.Proofs.Marker.Runs
import NullAccess.Proofs.Source.Literals
import NullAccess.Proofs.Access.Conditions
import NullAccess.Proofs.Access.Kinds
import NullAccess.Proofs.Source.Body
import NullAccess.Proofs.Source.LineEnds
