import NodeSmith.Draft
import NodeSmith.Files.Tree
import NodeSmith.Main
import NodeSmith.Proofs.Text.Free
import NodeSmith.Proofs.Text.Lines
import NodeSmith.Proofs.Layout.Indents
import NodeSmith.Proofs.Layout.Lines
import NodeSmith.Proofs.Outcome
import NodeSmith.Proofs.Union.Characters
import NodeSmith.Proofs.Catalog.Canonical
import NodeSmith.Proofs.SourceFile.Values
import NodeSmith.Proofs.Assoc
import NodeSmith.Proofs.Catalog.Respelling
import NodeSmith.Proofs.Factory.Calls
import NodeSmith.Proofs.Files.Faults
import NodeSmith.Proofs.Files.Publication
import NodeSmith.Proofs.Layout.Content
import NodeSmith.Proofs.SourceFile.Braces
import NodeSmith.Proofs.SourceFile.Lines
import NodeSmith.Proofs.Union.Keys
import NodeSmith.Proofs.Catalog.Faults
import NodeSmith.Proofs.Catalog.Tables
import NodeSmith.Proofs.Catalog.Unseen
import NodeSmith.Proofs.Layout.Trace
import NodeSmith.Proofs.SourceFile.Faults
import NodeSmith.Proofs.Files.Changes
import NodeSmith.Proofs.Files.Growth
import NodeSmith.Proofs.Files.History
import NodeSmith.Proofs.CommandLine.Invocation
import NodeSmith.Proofs.CommandLine.Session
import NodeSmith.Proofs.Layout.Emission
import NodeSmith.Proofs.Visitor.Scan
import NodeSmith.Proofs.Visitor.Labels
import NodeSmith.Proofs.Union.Separators
import NodeSmith.Proofs.Visitor.Groups
import NodeSmith.Proofs.Visitor.Visits
import NodeSmith.Proofs.Catalog.Stability
import NodeSmith.Proofs.Catalog.Indexing
import NodeSmith.Proofs.Catalog.NormalForm
import NodeSmith.Proofs.Layout.Parts
import NodeSmith.Proofs.Layout.Spacing
import NodeSmith.Proofs.Factory.Separation
import NodeSmith.Proofs.Factory.Scopes
import NodeSmith.Proofs.SourceFile.Indentation
import NodeSmith.Proofs.Files.Walks
import NodeSmith.Proofs.Files.Staging
import NodeSmith.Proofs.Files.Agreement
import NodeSmith.Proofs.Union.Trimming
import NodeSmith.Proofs.Settings
import NodeSmith.Text.Point
