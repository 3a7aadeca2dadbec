import Workflow.Assoc
import Workflow.CommandLine
import Workflow.Context
import Workflow.DataFlow
import Workflow.Decimal.Binary64
import Workflow.Decimal.Literal
import Workflow.Decimal.Shortest
import Workflow.Document.Basic
import Workflow.Document.Codec
import Workflow.Document.Load
import Workflow.Document.Schema
import Workflow.Fault
import Workflow.Files
import Workflow.Graph
import Workflow.Interface
import Workflow.Json.Basic
import Workflow.Json.Printer
import Workflow.Json.Reader
import Workflow.Limits
import Workflow.Main
import Workflow.Mentions
import Workflow.Mode
import Workflow.Notice
import Workflow.Path
import Workflow.Pipeline
import Workflow.Plan
import Workflow.Registry
import Workflow.Run
import Workflow.SemanticType
import Workflow.Similar
import Workflow.Subworkflow
import Workflow.Template.Resolve
import Workflow.Template.Token
import Workflow.Text.Basic
import Workflow.Text.CaseTable
import Workflow.Text.Lowercase
import Workflow.Traverse
import Workflow.Unit.Basic
import Workflow.Unit.Builtin
import Workflow.Yaml.Glyph
import Workflow.Yaml.Literal
import Workflow.Yaml.Reader
import Workflow.Yaml.Scalar
import Workflow.Proofs.Ordering
import Workflow.Proofs.Building
import Workflow.Proofs.Walking
import Workflow.Proofs.Layers
import Workflow.Proofs.Nesting
import Workflow.Proofs.Escalation
import Workflow.Proofs.Modes
import Workflow.Proofs.Resolving
import Workflow.Proofs.Parameters
import Workflow.Proofs.Splitting
import Workflow.Proofs.Acceptance
import Workflow.Proofs.RoundTrip
import Workflow.Proofs.Trail
import Workflow.Proofs.Strictness
import Workflow.Proofs.Consistency
import Workflow.Proofs.Success
import Workflow.Proofs.History
import Workflow.Proofs.Scoping
import Workflow.Proofs.Isolation
import Workflow.Proofs.Outputs
import Workflow.Proofs.Recursion
import Workflow.Proofs.Sharing
import Workflow.Proofs.Namespaces
import Workflow.Proofs.Defaults
import Workflow.Proofs.Reading
import Workflow.Proofs.Agreement
import Workflow.Proofs.Depth
import Workflow.Proofs.Arrangement
import Workflow.Proofs.Reordering
import Workflow.Proofs.Journaling
import Workflow.Proofs.Binding
import Workflow.Proofs.Reserved
import Workflow.Proofs.Circling
import Workflow.Proofs.Counting
import Workflow.Proofs.Referencing
import Workflow.Proofs.Verbatim
import Workflow.Proofs.Reaching
import Workflow.Proofs.Grammar
import Workflow.Proofs.Paths
import Workflow.Proofs.Tokenizing
import Workflow.Proofs.Effects
import Workflow.Proofs.Summaries
import Workflow.Proofs.Positions
import Workflow.Proofs.Accounting
import Workflow.Proofs.Lookups
import Workflow.Proofs.Sweeping
import Workflow.Proofs.Policies
import Workflow.Proofs.Following
import Workflow.Proofs.Issues
import Workflow.Proofs.Mapping
import Workflow.Proofs.Writing
import Workflow.Proofs.Transparency
import Workflow.Proofs.Distance
import Workflow.Proofs.Segments
import Workflow.Proofs.Unions
import Workflow.Proofs.Wiring
import Workflow.Proofs.Suggestions
import Workflow.Proofs.Extraction
import Workflow.Proofs.Entering
