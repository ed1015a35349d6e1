import LiveDoc.Calc.Chart
import LiveDoc.Calc.Error
import LiveDoc.Calc.Eval
import LiveDoc.Calc.Execution
import LiveDoc.Calc.Expr
import LiveDoc.Calc.Lexer
import LiveDoc.Calc.Parser
import LiveDoc.Calc.Session
import LiveDoc.Calc.Token
import LiveDoc.Calc.Value
import LiveDoc.Command.Arguments
import LiveDoc.Command.Flag
import LiveDoc.Command.Reach
import LiveDoc.Command.Run
import LiveDoc.Config.Basic
import LiveDoc.Data.Bytes
import LiveDoc.Data.NameTable
import LiveDoc.Decimal.Binary
import LiveDoc.Decimal.General
import LiveDoc.Decimal.Read
import LiveDoc.Decimal.Shortest
import LiveDoc.Document.Classified
import LiveDoc.Document.Error
import LiveDoc.Document.Include
import LiveDoc.Document.Marker
import LiveDoc.Document.Modifier
import LiveDoc.Document.Node
import LiveDoc.Document.Parser
import LiveDoc.Document.Section
import LiveDoc.FileTree.Basic
import LiveDoc.FileTree.Device
import LiveDoc.FileTree.Path
import LiveDoc.Main
import LiveDoc.Markdown.Block
import LiveDoc.Markdown.Container
import LiveDoc.Markdown.Emphasis
import LiveDoc.Markdown.Entity
import LiveDoc.Markdown.EntityTable
import LiveDoc.Markdown.Html
import LiveDoc.Markdown.Inline
import LiveDoc.Markdown.Link
import LiveDoc.Markdown.Margin
import LiveDoc.Markdown.Scan
import LiveDoc.Markdown.Table
import LiveDoc.Proofs.Calc.Acceptance
import LiveDoc.Proofs.Calc.Depth
import LiveDoc.Proofs.Calc.Grammar
import LiveDoc.Proofs.Calc.Reads
import LiveDoc.Proofs.Calc.Unambiguous
import LiveDoc.Proofs.Data.Action
import LiveDoc.Proofs.Document.Lossless
import LiveDoc.Proofs.Document.Marks
import LiveDoc.Proofs.Document.Pieces
import LiveDoc.Proofs.Document.Regions
import LiveDoc.Proofs.Document.Segments
import LiveDoc.Proofs.Document.Visits
import LiveDoc.Proofs.Markdown.CodeRanges
import LiveDoc.Proofs.Markdown.Margin
import LiveDoc.Proofs.Run.Verbatim
import LiveDoc.Proofs.Source.Ranges
import LiveDoc.Proofs.Text.Cut
import LiveDoc.Report.Outline
import LiveDoc.Report.Snippet
import LiveDoc.Run.Artifact
import LiveDoc.Run.Condition
import LiveDoc.Run.Error
import LiveDoc.Run.Expansion
import LiveDoc.Run.Layout
import LiveDoc.Run.Progress
import LiveDoc.Source.Map
import LiveDoc.Source.Span
import LiveDoc.Suite.Case
import LiveDoc.Suite.Run
import LiveDoc.Suite.Verdict
import LiveDoc.Text.Basic
import LiveDoc.Text.CharClass
import LiveDoc.Text.CharTable.Alphabetic
import LiveDoc.Text.CharTable.CaseIgnorable
import LiveDoc.Text.CharTable.Cased
import LiveDoc.Text.CharTable.Combining
import LiveDoc.Text.CharTable.Hidden
import LiveDoc.Text.CharTable.Lowercase
import LiveDoc.Text.CharTable.Number
import LiveDoc.Text.CharTable.Punctuation
import LiveDoc.Text.CharTable.Wide
import LiveDoc.Text.Display
import LiveDoc.Text.LetterCase
import LiveDoc.Toml.Decode
import LiveDoc.Toml.Reader
import LiveDoc.Toml.Table
import LiveDoc.Toml.Text
import LiveDoc.Proofs.Run.Lifecycle
import LiveDoc.Proofs.Include.Opening
import LiveDoc.Proofs.Document.Directives
import LiveDoc.Proofs.Include.Insertion
import LiveDoc.Proofs.Include.Chain
import LiveDoc.Proofs.Include.Bound
import LiveDoc.Proofs.Include.Detection
import LiveDoc.Proofs.Include.Flattening
import LiveDoc.Proofs.Document.LineEnds
import LiveDoc.Proofs.Run.Prints
import LiveDoc.Proofs.Include.Boundary
import LiveDoc.Proofs.Run.DeadBranch
import LiveDoc.Proofs.Document.Classification
import LiveDoc.Proofs.Run.Restyling
import LiveDoc.Proofs.Calc.Lookup
import LiveDoc.Proofs.Run.Visibility
import LiveDoc.Proofs.Document.Leads
import LiveDoc.Proofs.Run.Residue
import LiveDoc.Proofs.FileTree.Paths
import LiveDoc.Proofs.Run.ArtifactNames
import LiveDoc.Proofs.Calc.Extensions
import LiveDoc.Proofs.Run.Settling
import LiveDoc.Proofs.Run.Bookkeeping
import LiveDoc.Proofs.FileTree.Replacing
import LiveDoc.Proofs.FileTree.Writes
import LiveDoc.Proofs.Run.Persistence
import LiveDoc.Proofs.Command.Failure
import LiveDoc.Proofs.FileTree.Following
import LiveDoc.Proofs.Command.References
import LiveDoc.Proofs.Command.Filing
import LiveDoc.Proofs.Source.Validity
import LiveDoc.Proofs.Calc.Places
import LiveDoc.Proofs.Document.Places
import LiveDoc.Proofs.Document.Positions
import LiveDoc.Proofs.Include.Positions
import LiveDoc.Proofs.Run.Positions
import LiveDoc.Proofs.Calc.Rules
import LiveDoc.Proofs.Calc.Agreement
import LiveDoc.Proofs.Calc.Missing
import LiveDoc.Proofs.Calc.Relocation
import LiveDoc.Proofs.Calc.Guards
import LiveDoc.Proofs.Text.Lines
import LiveDoc.Proofs.Calc.Failures
import LiveDoc.Proofs.Markdown.CodeLines
import LiveDoc.Proofs.Document.Contents
import LiveDoc.Proofs.Include.Origin
import LiveDoc.Proofs.Run.FailingLine
import LiveDoc.Proofs.Run.OutputFence
import LiveDoc.Proofs.Run.LeadRemoval
import LiveDoc.Proofs.Calc.Production
import LiveDoc.Proofs.Calc.Atomicity
import LiveDoc.Proofs.Calc.Concatenation
import LiveDoc.Proofs.Markdown.Fences
import LiveDoc.Proofs.Markdown.FencedCode
import LiveDoc.Proofs.Markdown.FencedBlocks
import LiveDoc.Proofs.Document.FencedText
import LiveDoc.Proofs.Run.Refencing
import LiveDoc.Proofs.Calc.Shifting
import LiveDoc.Proofs.Calc.ScriptLines
import LiveDoc.Proofs.Run.Erasure
import LiveDoc.Proofs.Data.NameTable
import LiveDoc.Proofs.Run.BindingOwners
import LiveDoc.Proofs.Document.Tags
import LiveDoc.Proofs.Document.Acceptance
import LiveDoc.Proofs.Document.Aliases
import LiveDoc.Proofs.Document.Sections
import LiveDoc.Proofs.Document.Windows
import LiveDoc.Proofs.Document.Gaps
import LiveDoc.Proofs.Document.Brackets
import LiveDoc.Proofs.Document.MarkerLines
import LiveDoc.Proofs.Source.Growth
import LiveDoc.Proofs.Source.Registration
import LiveDoc.Proofs.Calc.Literals
import LiveDoc.Proofs.Calc.LiteralForms
import LiveDoc.Proofs.Markdown.WholeLines
import LiveDoc.Proofs.Document.SectionLines
import LiveDoc.Proofs.Text.Words
import LiveDoc.Proofs.Markdown.Drafts
import LiveDoc.Proofs.Markdown.ShownText
import LiveDoc.Proofs.Document.SectionNames
import LiveDoc.Proofs.Calc.Blame
import LiveDoc.Proofs.Calc.Tiling
import LiveDoc.Proofs.Suite.Frontmatter
import LiveDoc.Proofs.FileTree.Trails
import LiveDoc.Proofs.Suite.Discovery
import LiveDoc.Proofs.Suite.Selection
