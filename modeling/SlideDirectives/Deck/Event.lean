import SlideDirectives.Directive.Registry
import SlideDirectives.Html.Token
import SlideDirectives.Markdown.Tree
import SlideDirectives.Text.Basic
import SlideDirectives.Text.Document

/-!
# Events and faults of a pass

A pass over a document reports what it finds as events, in document order,
between the event that starts it and the one that ends it. A span in single
dollars is math unless white space stands inside either dollar, or a digit
follows the closing one. A backslash before the closing dollar lifts the last
rule. Spans in double dollars are always math.

Reading HTML stops at a tag of which it is unclear whether raw text follows it.
A fault of Markdown names the line and the column that it was found at.
-/

set_option autoImplicit false

namespace SlideDirectives

inductive MathKind where
  | inline
  | block
  deriving DecidableEq, Repr

namespace MathKind

open Text

def inner? (raw : List Char) : Option (List Char) :=
  match raw with
  | '$' :: cs => if cs.getLast? = some '$' then some cs.dropLast else none
  | _ => none

def classify? (raw following : List Char) : Option MathKind :=
  match raw with
  | '$' :: '$' :: _ => some .block
  | _ => do
    let inner ← inner? raw
    let first ← inner.head?
    let last ← inner.getLast?
    if isBlank first || isBlank last then none
    else if last ≠ '\\' ∧ following.head?.any Char.isDigit then none
    else some .inline

end MathKind

end SlideDirectives

namespace SlideDirectives.Deck

open Text

structure Ranged where
  text : List Char
  range : Range
  deriving DecidableEq, Repr

/-- The range goes from the opening fence to the closing one. -/
structure FrontMatterEvent where
  range : Range
  body : List Char
  bodyRange : Range
  deriving DecidableEq, Repr

/-- The content is all between the delimiters, the body is what is left of it
without padding. -/
structure CommentEvent where
  range : Range
  contentRange : Range
  body : List Char
  bodyRange : Range
  deriving DecidableEq, Repr

/-- A pair at the top level of front matter or of a comment, with the
definition of its key if there is one. -/
structure DirectiveEvent where
  definition : Option Definition
  key : Ranged
  value : Option Ranged
  isScoped : Bool
  context : Context
  deriving DecidableEq, Repr

structure ImageEvent where
  image : Markdown.Image
  body : List Char
  range : Range
  deriving DecidableEq, Repr

structure MathEvent where
  kind : MathKind
  body : List Char
  range : Range
  deriving DecidableEq, Repr

inductive Event where
  | startParse
  | frontMatter (e : FrontMatterEvent)
  | comment (e : CommentEvent)
  | directive (e : DirectiveEvent)
  | image (e : ImageEvent)
  | maybeMath (e : MathEvent)
  | endParse
  deriving DecidableEq, Repr

namespace DirectiveEvent

def name? (e : DirectiveEvent) : Option (List Char) :=
  e.definition.map Definition.name

def isGlobal (e : DirectiveEvent) : Bool :=
  e.definition.any Definition.isGlobal

def fullRange (e : DirectiveEvent) : Range :=
  let last := (e.value.map Ranged.range).getD e.key.range
  ⟨e.key.range.start, last.stop, ⟨e.key.range.span.start, last.span.stop⟩⟩

def valueText (e : DirectiveEvent) : List Char :=
  (e.value.map (fun v => trim v.text)).getD []

end DirectiveEvent

namespace Event

def directive? : Event → Option DirectiveEvent
  | .directive e => some e
  | _ => none

def isBound : Event → Bool
  | .startParse | .endParse => true
  | _ => false

end Event

inductive Fault where
  | markdown (message : List Char) (line column : Nat)
  | html (tag : Html.Doubtful)
  deriving DecidableEq, Repr

namespace Fault

def ofMessage (m : Markdown.Message) : Fault :=
  .markdown m.text m.location.line m.location.column

def doubt (tag : Html.Doubtful) : String :=
  "The parser has encountered a text content tag (\x60<" ++ String.ofList tag ++
    ">\x60) in the context where it is ambiguous whether this tag should be ignored or not. " ++
    "And, thus, it is unclear whether consequent content should be parsed as raw text or HTML " ++
    "markup.\n\nThis error occurs due to the limited capabilities of the streaming parsing. " ++
    "However, almost all of the cases of this error are caused by a non-conforming markup " ++
    "(e.g. a \x60<script>\x60 element in \x60<select>\x60 element)."

def message : Fault → String
  | .markdown message line column =>
    "Markdown parse error at " ++ Nat.repr line ++ ":" ++ Nat.repr column ++ ": " ++
      String.ofList message
  | .html tag => "HTML parse error: " ++ doubt tag

end Fault

end SlideDirectives.Deck
