import Actionbook.Binding
import Actionbook.Choice
import Actionbook.Config.Basic
import Actionbook.Config.Error
import Actionbook.Config.Standard
import Actionbook.Data.Basic
import Actionbook.Data.Members
import Actionbook.Data.Moment
import Actionbook.Data.Order
import Actionbook.Data.Outline
import Actionbook.Data.Text
import Actionbook.Decimal.Binary64
import Actionbook.Decimal.Notation
import Actionbook.Decimal.Shortest
import Actionbook.Design.Basic
import Actionbook.Design.Error
import Actionbook.Design.Layout
import Actionbook.Design.Reader
import Actionbook.Diagnostic
import Actionbook.Diff
import Actionbook.Diff.Text
import Actionbook.Digest.Sha256
import Actionbook.Disk.Basic
import Actionbook.Disk.Path
import Actionbook.Enrichment
import Actionbook.Fingerprint
import Actionbook.Form.Basic
import Actionbook.Form.Error
import Actionbook.Form.Layout
import Actionbook.Graph.Basic
import Actionbook.Graph.Fault
import Actionbook.Graph.Links
import Actionbook.Graph.Node
import Actionbook.Graph.Walk
import Actionbook.Json.Basic
import Actionbook.Json.Reader
import Actionbook.Json.Writer
import Actionbook.Literal
import Actionbook.Naming
import Actionbook.Output.Group
import Actionbook.Output.Rendering
import Actionbook.Publisher
import Actionbook.Report
import Actionbook.Sentence.Pattern
import Actionbook.Sentence.Rewriting
import Actionbook.Sentence.Wording
import Actionbook.Signature.Basic
import Actionbook.Signature.Export
import Actionbook.Snapshot
import Actionbook.Snapshot.File
import Actionbook.Sorting
import Actionbook.Text.Blank
import Actionbook.Text.Breaks
import Actionbook.Text.Case
import Actionbook.Text.CodePoints
import Actionbook.Text.Digit
import Actionbook.Text.Hex
import Actionbook.Text.Marks
import Actionbook.Text.Printable
import Actionbook.Text.Quoted
import Actionbook.Text.Utf8
import Actionbook.Text.WordChar
import Actionbook.Typing
import Actionbook.Value
import Actionbook.Warning
import Actionbook.Workspace
import Actionbook.Xml.Element
import Actionbook.Xml.Entity
import Actionbook.Xml.Markup
import Actionbook.Xml.Name
import Actionbook.Xml.Prolog
import Actionbook.Xml.Reader
import Actionbook.Yaml.Base64
import Actionbook.Yaml.Cursor
import Actionbook.Yaml.Error
import Actionbook.Yaml.Layout
import Actionbook.Yaml.Node
import Actionbook.Yaml.Node.Builder
import Actionbook.Yaml.Number
import Actionbook.Yaml.Reader
import Actionbook.Yaml.Scalar
import Actionbook.Yaml.Tag
import Actionbook.Yaml.Token
import Actionbook.Yaml.Token.Lexer
import Actionbook.Yaml.Writer
import Actionbook.Proofs.Walks
import Actionbook.Proofs.Tree
import Actionbook.Proofs.Sound
import Actionbook.Proofs.Reading
import Actionbook.Proofs.Work
import Actionbook.Proofs.Reports
import Actionbook.Proofs.Building
import Actionbook.Proofs.Calls
import Actionbook.Proofs.Binding
import Actionbook.Proofs.Progress
import Actionbook.Proofs.Linking
import Actionbook.Proofs.Links
import Actionbook.Proofs.Evidence
import Actionbook.Proofs.Typing
import Actionbook.Proofs.Placing
import Actionbook.Proofs.Wording
import Actionbook.Proofs.Normalizing
import Actionbook.Proofs.Layout
import Actionbook.Proofs.Passes
import Actionbook.Proofs.Runs
import Actionbook.Proofs.Warnings
import Actionbook.Proofs.Settling
import Actionbook.Proofs.Canonical
import Actionbook.Proofs.Layers
import Actionbook.Proofs.Sentences
import Actionbook.Proofs.Signatures
import Actionbook.Proofs.Sorting
import Actionbook.Proofs.CanonicalText
import Actionbook.Proofs.Snapshots
import Actionbook.Proofs.Rebinding
import Actionbook.Proofs.Documents
import Actionbook.Proofs.Declarations
import Actionbook.Proofs.Reruns
import Actionbook.Proofs.Idempotence
import Actionbook.Proofs.Publishing
import Actionbook.Proofs.Differences
import Actionbook.Proofs.Renaming
import Actionbook.Proofs.Partition
import Actionbook.Proofs.Derivability
import Actionbook.Proofs.Inference
import Actionbook.Proofs.Patterns
import Actionbook.Proofs.Spelling
import Actionbook.Proofs.Phrasing
import Actionbook.Proofs.Captures
import Actionbook.Proofs.Retelling
import Actionbook.Proofs.DocumentOrder
import Actionbook.Proofs.Grammar
import Actionbook.Proofs.Literals
import Actionbook.Proofs.Rewriting
import Actionbook.Proofs.Quoting
import Actionbook.Proofs.Renderings
import Actionbook.Proofs.Stubs
import Actionbook.Proofs.Codec
import Actionbook.Proofs.Disks
import Actionbook.Proofs.SnapshotFiles
import Actionbook.Proofs.Configurations
import Actionbook.Proofs.Loading
import Actionbook.Proofs.References
import Actionbook.Proofs.Fingerprints
import Actionbook.Proofs.Sources
import Actionbook.Proofs.Agreement
import Actionbook.Proofs.Defaults
import Actionbook.Proofs.Pairing
import Actionbook.Proofs.Mirroring
import Actionbook.Proofs.Keywords
import Actionbook.Proofs.Recognition
import Actionbook.Proofs.Entries
import Actionbook.Proofs.Selection
import Actionbook.Proofs.Redeclarations
