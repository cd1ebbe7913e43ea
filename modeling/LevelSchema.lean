import LevelSchema.Document.Print
import LevelSchema.Files.Tree
import LevelSchema.Main
import LevelSchema.Proofs.Artifact
import LevelSchema.Proofs.Resolved.Inheritance
import LevelSchema.Proofs.Code.Delegation
import LevelSchema.Proofs.Code.Facts
import LevelSchema.Proofs.Code.Binding
import LevelSchema.Proofs.Code.Templates
import LevelSchema.Proofs.Resolved.Closure
import LevelSchema.Proofs.Document.Matching
import LevelSchema.Proofs.Document.Rows
import LevelSchema.Proofs.Schema.Loadable
import LevelSchema.Proofs.Document.Reading
import LevelSchema.Proofs.Token.Scans
import LevelSchema.Proofs.Document.Lines
import LevelSchema.Proofs.Schema.FinalNewline
import LevelSchema.Proofs.Document.Places
import LevelSchema.Proofs.Document.RoundTrip
import LevelSchema.Proofs.Schema.Places
import LevelSchema.Proofs.Schema.BlankLines
import LevelSchema.Proofs.Resolved.Locality
import LevelSchema.Proofs.Code.Locality
import LevelSchema.Proofs.LineStyle
import LevelSchema.Proofs.Diagnostic.Labels
import LevelSchema.Proofs.Token.Places
import LevelSchema.Proofs.Token.Tiling
import LevelSchema.Proofs.Document.Spans
import LevelSchema.Proofs.Schema.Extents
import LevelSchema.Proofs.Schema.NamePlaces
import LevelSchema.Proofs.Schema.Findings
import LevelSchema.Proofs.Resolved.Findings
import LevelSchema.Proofs.Resolved.Labels
import LevelSchema.Proofs.Session.Calls
import LevelSchema.Proofs.Publication.Replacement
import LevelSchema.Proofs.CommandLine.Run
import LevelSchema.Proofs.Code.Descriptions
import LevelSchema.Proofs.Code.OneLine
import LevelSchema.Proofs.Layouts
import LevelSchema.Proofs.Lineage.Cycles
import LevelSchema.Proofs.Lineage.Order
import LevelSchema.Proofs.Resolved.LevelOrder
import LevelSchema.Proofs.Resolved.Concerns
import LevelSchema.Proofs.Resolved.Cycles
import LevelSchema.Proofs.Resolved.Termination
import LevelSchema.Proofs.Schema.Numbering
import LevelSchema.Proofs.Code.Values
import LevelSchema.Proofs.Code.Written
import LevelSchema.Proofs.Name.Snake
import LevelSchema.Proofs.Code.Faults
import LevelSchema.Proofs.Schema.Repetitions
import LevelSchema.Proofs.Resolved.Collisions
import LevelSchema.Proofs.Token.Words
