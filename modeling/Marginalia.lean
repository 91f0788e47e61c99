import Marginalia.Builtin.All
import Marginalia.Builtin.Braces
import Marginalia.Builtin.Clojure
import Marginalia.Builtin.Fortran
import Marginalia.Builtin.Haskell
import Marginalia.Builtin.Markup
import Marginalia.Builtin.Python
import Marginalia.Builtin.Ruby
import Marginalia.Builtin.Scripting
import Marginalia.Capability
import Marginalia.Comment.Block
import Marginalia.Comment.Decoration
import Marginalia.Comment.Docstring
import Marginalia.Comment.Inline
import Marginalia.DocExtension
import Marginalia.Error
import Marginalia.Grammar
import Marginalia.Journal
import Marginalia.Language.Basic
import Marginalia.Language.Outline
import Marginalia.Language.OutputName
import Marginalia.Layout
import Marginalia.Link
import Marginalia.Pass
import Marginalia.Path
import Marginalia.Pipeline
import Marginalia.Proofs.Builtin.Break
import Marginalia.Proofs.Builtin.Dividers
import Marginalia.Proofs.Builtin.Scopes
import Marginalia.Proofs.Builtin.Source
import Marginalia.Proofs.Comment.Block
import Marginalia.Proofs.Comment.Break
import Marginalia.Proofs.Comment.Docstring
import Marginalia.Proofs.Comment.Exposed
import Marginalia.Proofs.Comment.Extraction
import Marginalia.Proofs.Comment.Guarded
import Marginalia.Proofs.Comment.Inline
import Marginalia.Proofs.Comment.Literal
import Marginalia.Proofs.Comment.Plain
import Marginalia.Proofs.Comment.Quoting
import Marginalia.Proofs.Comment.Returns
import Marginalia.Proofs.Comment.Runs
import Marginalia.Proofs.Comment.Scan
import Marginalia.Proofs.Except
import Marginalia.Proofs.Language.Assembly
import Marginalia.Proofs.Language.Capabilities
import Marginalia.Proofs.Language.Normal
import Marginalia.Proofs.Language.OutputName
import Marginalia.Proofs.Language.Stages
import Marginalia.Proofs.Path
import Marginalia.Proofs.Regex.Break
import Marginalia.Proofs.Regex.Delimiter
import Marginalia.Proofs.Regex.Literal
import Marginalia.Proofs.Regex.Place
import Marginalia.Proofs.Regex.Row
import Marginalia.Proofs.Regex.Spelled
import Marginalia.Proofs.Registry.AnyOrder
import Marginalia.Proofs.Registry.Configured
import Marginalia.Proofs.Registry.Faithful
import Marginalia.Proofs.Registry.InPlace
import Marginalia.Proofs.Registry.Index
import Marginalia.Proofs.Registry.Order
import Marginalia.Proofs.Render.Fragments
import Marginalia.Proofs.Render.Highlight
import Marginalia.Proofs.Render.Marks
import Marginalia.Proofs.Render.OneCall
import Marginalia.Proofs.Render.Plain
import Marginalia.Proofs.Render.Shown
import Marginalia.Proofs.Scope.Break
import Marginalia.Proofs.Scope.Closed
import Marginalia.Proofs.Scope.Cuts
import Marginalia.Proofs.Scope.Decorated
import Marginalia.Proofs.Scope.Groups
import Marginalia.Proofs.Scope.Headed
import Marginalia.Proofs.Scope.LineLocal
import Marginalia.Proofs.Scope.Pieces
import Marginalia.Proofs.Section.Break
import Marginalia.Proofs.Section.Closed
import Marginalia.Proofs.Section.Ink
import Marginalia.Proofs.Section.Lacks
import Marginalia.Proofs.Section.Merging
import Marginalia.Proofs.Section.Texts
import Marginalia.Proofs.Section.WholeLines
import Marginalia.Proofs.Settings.Extensions
import Marginalia.Proofs.Table
import Marginalia.Proofs.Text.Cut
import Marginalia.Proofs.Text.First
import Marginalia.Proofs.Text.Indent
import Marginalia.Proofs.Text.Lines
import Marginalia.Proofs.Text.Located
import Marginalia.Proofs.Text.Lower
import Marginalia.Proofs.Text.Markup
import Marginalia.Proofs.Text.Newlines
import Marginalia.Regex.Bracket
import Marginalia.Regex.Built
import Marginalia.Regex.CharSet
import Marginalia.Regex.Cursor
import Marginalia.Regex.Encoding
import Marginalia.Regex.Escape
import Marginalia.Regex.Expr
import Marginalia.Regex.Footprint
import Marginalia.Regex.Leftmost
import Marginalia.Regex.Pattern
import Marginalia.Regex.Program
import Marginalia.Regex.Ranges
import Marginalia.Regex.Reader
import Marginalia.Regex.Search
import Marginalia.Regex.Source
import Marginalia.Regex.Template
import Marginalia.Regex.Trail
import Marginalia.Registry.Basic
import Marginalia.Registry.Configured
import Marginalia.Registry.Logged
import Marginalia.Render.Divider
import Marginalia.Render.Highlighter
import Marginalia.Render.Page
import Marginalia.Render.Paragraph
import Marginalia.Scope.Decorator
import Marginalia.Scope.Rule
import Marginalia.Scope.Split
import Marginalia.Section
import Marginalia.Settings
import Marginalia.Table
import Marginalia.Text.Basic
import Marginalia.Text.Blank
import Marginalia.Text.CaseMap
import Marginalia.Text.Fold
import Marginalia.Text.Letter
import Marginalia.Text.Lines
import Marginalia.Text.Lower
import Marginalia.Text.Markup
import Marginalia.Text.Number
import Marginalia.Text.Numeral
import Marginalia.Text.Word
import Marginalia.Toml.Datetime
import Marginalia.Toml.Lexical
import Marginalia.Toml.Number
import Marginalia.Toml.Reader
import Marginalia.Toml.Value
import Marginalia.Proofs.Builtin.Stars
import Marginalia.Proofs.Builtin.Bodies
import Marginalia.Proofs.Text.Leading
import Marginalia.Proofs.Text.Linewise
import Marginalia.Proofs.Section.Aligned
import Marginalia.Proofs.Regex.Replace
import Marginalia.Proofs.Regex.Reads
import Marginalia.Proofs.Regex.Anchored
import Marginalia.Proofs.Comment.Decoration
import Marginalia.Proofs.Language.Directory
import Marginalia.Proofs.Builtin.Declaration
import Marginalia.Proofs.Builtin.DeclaredLines
import Marginalia.Proofs.Scope.Titled
import Marginalia.Proofs.Language.Labels
import Marginalia.Proofs.Builtin.Anchor
import Marginalia.Proofs.Render.Paragraphs
