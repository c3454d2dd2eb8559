import SlideDirectives.Css.Color
import SlideDirectives.Deck.Event
import SlideDirectives.Deck.Log
import SlideDirectives.Deck.Pass
import SlideDirectives.Directive.Builtin
import SlideDirectives.Directive.Registry
import SlideDirectives.Editor.Annotation
import SlideDirectives.Editor.Batch
import SlideDirectives.Editor.Batch.Workers
import SlideDirectives.Editor.Completion
import SlideDirectives.Editor.Rule
import SlideDirectives.Editor.Diagnostic
import SlideDirectives.Editor.Hover
import SlideDirectives.Editor.Options
import SlideDirectives.Editor.OptionsCache
import SlideDirectives.FrontMatter
import SlideDirectives.Html.Tag
import SlideDirectives.Html.Closed
import SlideDirectives.Html.Comment
import SlideDirectives.Html.Nesting
import SlideDirectives.Html.RawText
import SlideDirectives.Html.Token
import SlideDirectives.Markdown.Block
import SlideDirectives.Markdown.Block.Container
import SlideDirectives.Markdown.Block.Mark
import SlideDirectives.Markdown.Block.Html
import SlideDirectives.Markdown.Block.Table
import SlideDirectives.Markdown.Entity
import SlideDirectives.Markdown.Escape
import SlideDirectives.Markdown.Glyph
import SlideDirectives.Markdown.Inline
import SlideDirectives.Markdown.Inline.Address
import SlideDirectives.Markdown.Inline.Emphasis
import SlideDirectives.Markdown.Inline.Resource
import SlideDirectives.Markdown.Inline.Tag
import SlideDirectives.Markdown.Place
import SlideDirectives.Markdown.Reference
import SlideDirectives.Markdown.Tree
import SlideDirectives.Number.Binary
import SlideDirectives.Text.Basic
import SlideDirectives.Text.Bytes
import SlideDirectives.Text.Document
import SlideDirectives.Text.Punctuation
import SlideDirectives.Text.UpperCase
import SlideDirectives.Yaml.Character
import SlideDirectives.Yaml.Cursor
import SlideDirectives.Yaml.Decode
import SlideDirectives.Yaml.Entry
import SlideDirectives.Yaml.Event
import SlideDirectives.Yaml.Value
import SlideDirectives.Yaml.Outline
import SlideDirectives.Yaml.Scalar.Block
import SlideDirectives.Yaml.Scalar.Plain
import SlideDirectives.Yaml.Scalar.Quoted
import SlideDirectives.Yaml.Tag
import SlideDirectives.Yaml.Token.Scanner
import SlideDirectives.Proofs.Text.Boundary
import SlideDirectives.Proofs.Text.Resolve
import SlideDirectives.Proofs.Text.PositionOrder
import SlideDirectives.Proofs.Text.Inverse
import SlideDirectives.Proofs.Text.OffsetOrder
import SlideDirectives.Proofs.Text.Trim
import SlideDirectives.Proofs.Text.Utf8
import SlideDirectives.Proofs.FrontMatter.Grammar
import SlideDirectives.Proofs.Yaml.EntryPlace
import SlideDirectives.Proofs.Html.Locate
import SlideDirectives.Proofs.Html.CommentPlace
import SlideDirectives.Proofs.Yaml.PairPlace
import SlideDirectives.Proofs.Deck.Grounded
import SlideDirectives.Proofs.Deck.Shift
import SlideDirectives.Proofs.Deck.Recognised
import SlideDirectives.Proofs.Deck.Broadcast
import SlideDirectives.Proofs.Deck.Marks
import SlideDirectives.Proofs.Deck.Stream
import SlideDirectives.Proofs.Deck.Visit
import SlideDirectives.Proofs.Deck.SinceStart
import SlideDirectives.Proofs.Directive.Lookup
import SlideDirectives.Proofs.Editor.Detection
import SlideDirectives.Proofs.Editor.DiagnosticOrder
import SlideDirectives.Proofs.Editor.DrainOrder
import SlideDirectives.Proofs.Editor.Forgetting
import SlideDirectives.Proofs.Editor.Freshness
import SlideDirectives.Proofs.Editor.Interleaving
import SlideDirectives.Proofs.Editor.Reports
import SlideDirectives.Proofs.Editor.RuleFindings
import SlideDirectives.Proofs.Html.Rest
import SlideDirectives.Proofs.Html.TokenPlace
import SlideDirectives.Proofs.Html.Decoy
import SlideDirectives.Proofs.Html.Written
import SlideDirectives.Proofs.Html.Bytewise
import SlideDirectives.Proofs.Html.Delimited
import SlideDirectives.Proofs.Yaml.Agree
import SlideDirectives.Proofs.Text.Overwrite
import SlideDirectives.Proofs.Text.Returns
import SlideDirectives.Proofs.Yaml.EntryScan
import SlideDirectives.Proofs.Yaml.PairOrder
import SlideDirectives.Proofs.Yaml.EntryBytes
import SlideDirectives.Proofs.Yaml.EntryCuts
import SlideDirectives.Proofs.Yaml.KeyLine
import SlideDirectives.Proofs.Yaml.Placement
import SlideDirectives.Proofs.Deck.InOrder
import SlideDirectives.Proofs.Yaml.Blank
import SlideDirectives.Proofs.Yaml.Distinct
import SlideDirectives.Proofs.Yaml.Located
import SlideDirectives.Proofs.Yaml.Rename
import SlideDirectives.Proofs.Yaml.Returns
import SlideDirectives.Proofs.Yaml.Alone
import SlideDirectives.Proofs.Yaml.Page.Row
import SlideDirectives.Proofs.Yaml.Page.Word
import SlideDirectives.Proofs.Yaml.Page.Blank
import SlideDirectives.Proofs.Yaml.Page.Plain
import SlideDirectives.Proofs.Yaml.Page.Scalar
import SlideDirectives.Proofs.Yaml.Page.Line
import SlideDirectives.Proofs.Yaml.Page.Scan
import SlideDirectives.Proofs.Yaml.Page.Mapping
import SlideDirectives.Proofs.Yaml.Page.Key
import SlideDirectives.Proofs.Yaml.Page.Skip
import SlideDirectives.Proofs.Yaml.Page.Tokens
import SlideDirectives.Proofs.Yaml.Page.Decode
import SlideDirectives.Proofs.Yaml.Page.Inline
import SlideDirectives.Proofs.Yaml.Page.Entries
import SlideDirectives.Proofs.Yaml.Page.Read
import SlideDirectives.Proofs.Yaml.Page.Around
import SlideDirectives.Proofs.Yaml.Page.Overwrite
import SlideDirectives.Proofs.Yaml.Sheet
import SlideDirectives.Proofs.Yaml.Repeated
import SlideDirectives.Proofs.Deck.KeyGaps
import SlideDirectives.Proofs.Editor.KeyHelp
import SlideDirectives.Proofs.Yaml.Matching
import SlideDirectives.Proofs.Yaml.CommentLines
import SlideDirectives.Proofs.Editor.KnownNames
import SlideDirectives.Proofs.Editor.Offers
import SlideDirectives.Proofs.Text.Distinct
import SlideDirectives.Proofs.Editor.Replacement
import SlideDirectives.Proofs.Text.LineCuts
import SlideDirectives.Proofs.Editor.Acceptance
import SlideDirectives.Proofs.Html.Padding
import SlideDirectives.Proofs.Yaml.ClosingQuote
import SlideDirectives.Proofs.Text.Search
import SlideDirectives.Proofs.Css.Color
import SlideDirectives.Proofs.Deck.MathSpans
