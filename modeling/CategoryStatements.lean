import CategoryStatements.Filter.Arena
import CategoryStatements.Json.Reader
import CategoryStatements.Session
import CategoryStatements.Proofs.Precedence
import CategoryStatements.Proofs.RoundTrip
import CategoryStatements.Proofs.Directives
import CategoryStatements.Proofs.FirstFault
import CategoryStatements.Proofs.Inlining
import CategoryStatements.Proofs.Journal
import CategoryStatements.Proofs.Exchanges
import CategoryStatements.Proofs.Shelf
import CategoryStatements.Proofs.Soundness
import CategoryStatements.Proofs.Transparency
import CategoryStatements.Proofs.Isolation
import CategoryStatements.Proofs.Writes
import CategoryStatements.Proofs.Offsets
import CategoryStatements.Proofs.Layouts
import CategoryStatements.Proofs.Promptness
import CategoryStatements.Proofs.Completion
import CategoryStatements.Proofs.EarliestFault
import CategoryStatements.Proofs.Trees
import CategoryStatements.Proofs.TreeShapes
import CategoryStatements.Proofs.Numbering
import CategoryStatements.Proofs.RuleTable
import CategoryStatements.Proofs.Spans
import CategoryStatements.Proofs.Lifecycle
import CategoryStatements.Proofs.NumberLimits
