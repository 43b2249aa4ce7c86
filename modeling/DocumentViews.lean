import DocumentViews.Catalog
import DocumentViews.Files.Tree
import DocumentViews.Main
import DocumentViews.Proofs.View.Coverage
import DocumentViews.Proofs.Graph.Attributes
import DocumentViews.Proofs.Schema.Growth
import DocumentViews.Proofs.Graph.History
import DocumentViews.Proofs.Sql.Lexeme
import DocumentViews.Proofs.Sql.Spelling
import DocumentViews.Proofs.View.Statement
import DocumentViews.Proofs.Naming.Snake
import DocumentViews.Proofs.Plan.Rooted
import DocumentViews.Proofs.Schema.Typed
import DocumentViews.Proofs.Schema.DocumentRoot
import DocumentViews.Proofs.Artifact.ViewsText
import DocumentViews.Proofs.Graph.DegreeCount
import DocumentViews.Proofs.Schema.Acceptance
import DocumentViews.Proofs.CommandLine.Outcome
import DocumentViews.Proofs.Graph.Lineage
import DocumentViews.Proofs.Graph.DepthLimit
import DocumentViews.Proofs.Plan.Merging
import DocumentViews.Proofs.Sql.SelectList
import DocumentViews.Proofs.View.Selection
import DocumentViews.Proofs.Sql.PathReading
import DocumentViews.Proofs.View.Extraction
import DocumentViews.Proofs.Schema.Site
import DocumentViews.Proofs.View.Unnesting
import DocumentViews.Proofs.Plan.Containment
import DocumentViews.Proofs.Report
import DocumentViews.Proofs.Naming.Words
import DocumentViews.Proofs.Naming.Plural
import DocumentViews.Proofs.Kernel.RoundTrip
import DocumentViews.Proofs.Artifact.Name
import DocumentViews.Proofs.Catalog
