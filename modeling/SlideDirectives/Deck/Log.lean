import SlideDirectives.Deck.Pass

/-!
# Listeners and the log

Listeners hear of each event as soon as it is found, one after the other, and
have no say in the pass. A fault ends the pass for all of them at once; what
they heard before it stands. A log holds the events since the last pass started,
and is sealed once that pass has ended.
-/

set_option autoImplicit false

namespace SlideDirectives.Deck

structure Log where
  events : List Event
  isSealed : Bool
  deriving DecidableEq, Repr

namespace Log

def empty : Log := ⟨[], false⟩

def add (l : Log) (e : Event) : Log :=
  let l := if e = .startParse then empty else l
  ⟨l.events ++ [e], l.isSealed || e == .endParse⟩

def addAll (l : Log) (es : List Event) : Log :=
  es.foldl add l

def directives (l : Log) : List DirectiveEvent :=
  l.events.filterMap Event.directive?

end Log

open Text

/-- What hears events, with what it has made of them so far. -/
structure Listener (σ : Type) where
  state : σ
  hear : σ → Event → σ

namespace Listener

variable {σ : Type}

def tell (l : Listener σ) (e : Event) : Listener σ :=
  { l with state := l.hear l.state e }

def tellAll (l : Listener σ) (es : List Event) : Listener σ :=
  es.foldl tell l

end Listener

abbrev Telling (σ : Type) := ExceptT Fault (StateM (List (Listener σ)))

section Telling

variable {σ : Type}

def emit (e : Event) : Telling σ PUnit :=
  modify (List.map (·.tell e))

namespace Source

def tellDirectives (s : Source) (offset : Nat) (context : Context) (body : List Char) :
    Telling σ PUnit :=
  (Yaml.Outline.read body).pairs.forM fun p => emit (.directive (s.directive offset context p))

def tellFrontMatter (s : Source) (f : FrontMatter) : Telling σ PUnit := do
  let body := s.document.textIn f.body
  emit (.frontMatter ⟨s.document.rangeOf f.span, body, s.document.rangeOf f.body⟩)
  s.tellDirectives f.body.start .frontMatter body

def tellComment (s : Source) (offset : Nat) (c : Html.Comment) : Telling σ PUnit := do
  let content := c.content.shift offset
  let (padding, body) := Html.stripPadding (s.document.textIn content)
  let start := content.start + padding
  emit (.comment ⟨s.document.rangeOf (c.span.shift offset), s.document.rangeOf content, body,
    s.document.rangeOf ⟨start, start + byteSize body⟩⟩)
  s.tellDirectives start .comment body

def tellFragment (s : Source) (span : Span) : Telling σ PUnit :=
  match Html.comments (s.document.textIn span) with
  | .ok cs => cs.forM (s.tellComment span.start)
  | .error tag => throw (.html tag)

def tellNode (s : Source) (offset : Nat) : Markdown.Node → Telling σ PUnit
  | .html span => s.tellFragment (span.shift offset)
  | .image span image =>
    let span := span.shift offset
    emit (.image ⟨image, s.document.textIn span, s.document.rangeOf span⟩)
  | .math span => emit (s.math .block (span.shift offset))
  | .inlineMath span =>
    let span := span.shift offset
    match MathKind.classify? (s.document.textIn span) (dropBytes span.stop s.document.text) with
    | some kind => emit (s.math kind span)
    | none => pure ()

mutual

def tellVisit (s : Source) (offset : Nat) : Markdown.Tree → Telling σ PUnit
  | .node content span children => do
    (content.node? span).forM (s.tellNode offset)
    s.tellVisitAll offset children

def tellVisitAll (s : Source) (offset : Nat) : List Markdown.Tree → Telling σ PUnit
  | [] => pure ()
  | t :: ts => do
    s.tellVisit offset t
    s.tellVisitAll offset ts

end

def tellParsed (s : Source) (offset : Nat) :
    Except Markdown.Message Markdown.Tree → Telling σ PUnit
  | .ok t => s.tellVisit offset t
  | .error m => throw (.ofMessage m)

def tellPass (parse : Markdown.Parser) (s : Source) : Telling σ PUnit := do
  emit .startParse
  s.front?.forM s.tellFrontMatter
  s.tellParsed s.bodyStart (parse s.body)
  emit .endParse

end Source

end Telling

end SlideDirectives.Deck
