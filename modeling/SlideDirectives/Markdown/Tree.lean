import SlideDirectives.Text.Bytes

/-!
# Trees of Markdown

A parser turns a text into a tree, or says what it could not read and where.
Constructs beyond the core can be left out one group at a time. Of all nodes of
a tree only HTML, images and math with a place are kept, each before those
below it.
-/

set_option autoImplicit false

namespace SlideDirectives.Markdown

open Text

/-- `extended` stands for literal links, strikethrough and tables. -/
structure Options where
  extended : Bool
  indentedCode : Bool
  rawHtml : Bool
  math : Bool
  deriving DecidableEq, Repr

namespace Options

def slideDeck : Options := ⟨true, true, true, true⟩

/-- The most columns that may stand before a construct. Without indented code
there is no such bound. -/
def maxIndent? (o : Options) : Option Nat :=
  if o.indentedCode then some 3 else none

def allowsIndent (o : Options) (columns : Nat) : Bool :=
  o.maxIndent?.all (columns ≤ ·)

end Options

structure Image where
  url : List Char
  alt : List Char
  title : Option (List Char)
  deriving DecidableEq, Repr

inductive Content where
  | html
  | image (image : Image)
  | math
  | inlineMath
  | other
  deriving DecidableEq, Repr

inductive Tree where
  | node (content : Content) (span : Option Span) (children : List Tree)

/-- A node that is kept. -/
inductive Node where
  | html (span : Span)
  | image (span : Span) (image : Image)
  | math (span : Span)
  | inlineMath (span : Span)
  deriving DecidableEq, Repr

namespace Node

def span : Node → Span
  | .html s => s
  | .image s _ => s
  | .math s => s
  | .inlineMath s => s

def tree : Node → Tree
  | .html s => .node .html (some s) []
  | .image s i => .node (.image i) (some s) []
  | .math s => .node .math (some s) []
  | .inlineMath s => .node .inlineMath (some s) []

end Node

def Content.node? : Content → Option Span → Option Node
  | .html, some s => some (.html s)
  | .image i, some s => some (.image s i)
  | .math, some s => some (.math s)
  | .inlineMath, some s => some (.inlineMath s)
  | .other, some _ => none
  | _, none => none

namespace Tree

mutual

def nodes : Tree → List Node
  | .node content span children => (content.node? span).toList ++ nodesOfAll children

def nodesOfAll : List Tree → List Node
  | [] => []
  | t :: ts => t.nodes ++ nodesOfAll ts

end

def group (children : List Tree) : Tree :=
  .node .other none children

end Tree

structure Point where
  line : Nat
  column : Nat
  deriving DecidableEq, Repr

structure Message where
  text : List Char
  place : Option (Point ⊕ Point × Point)
  deriving DecidableEq, Repr

/-- The point that a message is about, which is the start of the text for one
that names none. -/
def Message.location (m : Message) : Point :=
  match m.place with
  | some (.inl p) => p
  | some (.inr (start, _)) => start
  | none => ⟨1, 1⟩

abbrev Parser := List Char → Except Message Tree

def Parser.nodes (parse : Parser) (text : List Char) : List Node :=
  match parse text with
  | .ok t => t.nodes
  | .error _ => []

end SlideDirectives.Markdown
