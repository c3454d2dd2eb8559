import SlideDirectives.Deck.Event
import SlideDirectives.Directive.Builtin
import SlideDirectives.FrontMatter
import SlideDirectives.Html.Comment
import SlideDirectives.Markdown.Block
import SlideDirectives.Yaml.Outline

/-!
# A pass over a document

Front matter is read first, then the tree of the text behind it is visited,
each node before those below it. A body of front matter or of a comment is a
directive for each of its top-level pairs; one that holds no mapping has none.
A fault of Markdown or of HTML ends the pass; what was delivered before it
stands.
-/

set_option autoImplicit false

namespace SlideDirectives.Deck

open Text

/-- The events so far, and the fault if there was one. -/
structure Delivery where
  events : List Event
  fault : Option Fault
  deriving DecidableEq, Repr

namespace Delivery

def ofEvents (es : List Event) : Delivery := ⟨es, none⟩

/-- Nothing follows a fault. -/
def append (a b : Delivery) : Delivery :=
  match a.fault with
  | some _ => a
  | none => ⟨a.events ++ b.events, b.fault⟩

def join : List Delivery → Delivery
  | [] => ofEvents []
  | d :: ds => d.append (join ds)

def toExcept (d : Delivery) : Except Fault (List Event) :=
  match d.fault with
  | some f => .error f
  | none => .ok d.events

end Delivery

/-- What a pass reads: a document and the directives that it knows. -/
structure Source where
  document : Document
  registry : Registry
  deriving Repr

namespace Source

def ranged (s : Source) (offset : Nat) (i : Yaml.Item) : Ranged :=
  ⟨i.text, s.document.rangeOf (i.span.shift offset)⟩

def directive (s : Source) (offset : Nat) (context : Context) (p : Yaml.Pair) : DirectiveEvent :=
  let found := s.registry.lookup? p.key.text context
  ⟨found.map Recognised.definition, s.ranged offset p.key, p.value.map (s.ranged offset),
    found.any Recognised.isScoped, context⟩

def directives (s : Source) (offset : Nat) (context : Context) (body : List Char) : List Event :=
  (Yaml.Outline.read body).pairs.map (fun p => .directive (s.directive offset context p))

def frontMatter (s : Source) (f : FrontMatter) : List Event :=
  let body := s.document.textIn f.body
  .frontMatter ⟨s.document.rangeOf f.span, body, s.document.rangeOf f.body⟩ ::
    s.directives f.body.start .frontMatter body

def comment (s : Source) (offset : Nat) (c : Html.Comment) : List Event :=
  let content := c.content.shift offset
  let (padding, body) := Html.stripPadding (s.document.textIn content)
  let start := content.start + padding
  let bodySpan : Span := ⟨start, start + byteSize body⟩
  .comment ⟨s.document.rangeOf (c.span.shift offset), s.document.rangeOf content, body,
    s.document.rangeOf bodySpan⟩ :: s.directives start .comment body

def fragment (s : Source) (span : Span) : Delivery :=
  match Html.comments (s.document.textIn span) with
  | .ok cs => .ofEvents (cs.flatMap (s.comment span.start))
  | .error tag => ⟨[], some (.html tag)⟩

def math (s : Source) (kind : MathKind) (span : Span) : Event :=
  .maybeMath ⟨kind, s.document.textIn span, s.document.rangeOf span⟩

/-- Math within a line counts only as what its surroundings make of it. -/
def inlineMath (s : Source) (span : Span) : List Event :=
  match MathKind.classify? (s.document.textIn span) (dropBytes span.stop s.document.text) with
  | some kind => [s.math kind span]
  | none => []

def node (s : Source) (offset : Nat) : Markdown.Node → Delivery
  | .html span => s.fragment (span.shift offset)
  | .image span image =>
    let span := span.shift offset
    .ofEvents [.image ⟨image, s.document.textIn span, s.document.rangeOf span⟩]
  | .math span => .ofEvents [s.math .block (span.shift offset)]
  | .inlineMath span => .ofEvents (s.inlineMath (span.shift offset))

mutual

/-- A tree of the text that starts at `offset`: first its root, which counts
only if it is kept, and then what is below it. -/
def visit (s : Source) (offset : Nat) : Markdown.Tree → Delivery
  | .node content span children =>
    (((content.node? span).map (s.node offset)).getD (.ofEvents [])).append
      (s.visitAll offset children)

def visitAll (s : Source) (offset : Nat) : List Markdown.Tree → Delivery
  | [] => .ofEvents []
  | t :: ts => (s.visit offset t).append (s.visitAll offset ts)

end

def visitParsed (s : Source) (offset : Nat) :
    Except Markdown.Message Markdown.Tree → Delivery
  | .ok t => s.visit offset t
  | .error m => ⟨[], some (.ofMessage m)⟩

def passOver (s : Source) (block : Option FrontMatter) (offset : Nat)
    (parsed : Except Markdown.Message Markdown.Tree) : Delivery :=
  let front := (block.map s.frontMatter).getD []
  (Delivery.ofEvents (.startParse :: front)).append
    ((s.visitParsed offset parsed).append (.ofEvents [.endParse]))

def front? (s : Source) : Option FrontMatter :=
  FrontMatter.find? s.document.text

def bodyStart (s : Source) : Nat :=
  (s.front?.map (·.span.stop)).getD 0

def body (s : Source) : List Char :=
  dropBytes s.bodyStart s.document.text

def passWith (parse : Markdown.Parser) (s : Source) : Delivery :=
  s.passOver s.front? s.bodyStart (parse s.body)

def pass (s : Source) : Delivery :=
  s.passWith (Markdown.parse .slideDeck)

end Source

def pass (text : List Char) (parse : Markdown.Parser := Markdown.parse .slideDeck) : Delivery :=
  Source.passWith parse ⟨⟨text⟩, Registry.builtin⟩

/-- Whether front matter turns a text into a slide deck. -/
def isSlideDeck (text : List Char) : Bool :=
  match FrontMatter.find? text with
  | none => false
  | some f => (Yaml.Outline.read (slice text f.body)).pairs.any (fun p =>
      p.key.text == "marp".toList && p.value.any (fun v => trim v.text == "true".toList))

end SlideDirectives.Deck
