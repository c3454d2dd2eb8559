import SlideDirectives.Markdown.Block.Container
import SlideDirectives.Markdown.Block.Html
import SlideDirectives.Markdown.Block.Mark
import SlideDirectives.Markdown.Block.Table
import SlideDirectives.Markdown.Inline

/-!
# Blocks

A text is read row by row. Each row first continues the open containers, then
may start new ones; what is left of it continues the open leaf or starts
another. A row that does not continue all containers is lazy: the paragraph
that is open may still take it.

Once the blocks are found, all definitions are, and then the text of each block
is read. Nodes come in the order in which they start. Every text has a tree.
-/

set_option autoImplicit false

namespace SlideDirectives.Markdown

open Text

/-- Only the text of a paragraph may start with definitions. -/
inductive Block where
  | html (span : Span)
  | math (span : Span)
  | paragraph (text : List Glyph)
  | heading (text : List Glyph)
  | cell (text : List Glyph)
  deriving DecidableEq, Repr

/-- A leaf that was opened at `start` and reaches to `stop`; the row after it
starts at `next`. -/
structure Extent where
  start : Nat
  stop : Nat
  next : Nat
  deriving DecidableEq, Repr

inductive Leaf where
  | none
  /-- The last row of the paragraph comes first, with the cells it would have
  as the head of a table. -/
  | paragraph (head : Option Nat) (rows : List (List Glyph))
  | html (kind : HtmlKind) (extent : Extent)
  | fenced (fence : Fence) (extent : Extent)
  | table
  deriving DecidableEq, Repr

def joinRows (rows : List (List Glyph)) : List Glyph :=
  let text := rows.reverse.flatten
  if text.getLast?.any (·.char == '\n') then text.dropLast else text

namespace Leaf

def isConcrete : Leaf → Bool
  | .html _ _ => true
  | .fenced _ _ => true
  | _ => false

def isParagraph : Leaf → Bool
  | .paragraph _ _ => true
  | _ => false

def ofFence (f : Fence) (s : Span) : List Block :=
  if f.isMath then [.math s] else []

/-- The blocks of a leaf. Where a leaf has no closing line, the newline behind
its last row may belong to it. -/
def close (withNewline : Bool) : Leaf → List Block
  | .none => []
  | .table => []
  | .paragraph _ rows => [.paragraph (joinRows rows)]
  | .html kind e =>
    [.html ⟨e.start, if withNewline && !kind.endsAtBlank then e.next else e.stop⟩]
  | .fenced fence e => ofFence fence ⟨e.start, if withNewline then e.next else e.stop⟩

end Leaf

/-- `interrupts` says that a paragraph is open to be interrupted, `accepts`
that a lazy row may follow, `lazy` that the last row was one. -/
structure Outline where
  containers : List Container
  leaf : Leaf
  interrupts : Bool
  accepts : Bool
  lazy : Bool
  blocks : List Block
  deriving Repr

namespace Outline

def empty : Outline := ⟨[], .none, false, false, false, []⟩

def close (withNewline : Bool) (s : Outline) : Outline :=
  { s with leaf := .none, blocks := s.blocks ++ s.leaf.close withNewline }

def add (bs : List Block) (s : Outline) : Outline :=
  { s with blocks := s.blocks ++ bs }

/-- The row under way: its place behind the prefixes of containers, and whether
a container starts in it. -/
structure Current where
  row : Row
  place : Place
  lazy : Bool
  pierces : Bool
  deriving Repr

namespace Current

def stop (c : Current) : Nat :=
  if c.place.rest.isEmpty then c.row.start else c.row.stop

def start (c : Current) : Nat :=
  (c.place.rest.head?.map Glyph.start).getD c.row.start

def extent (c : Current) (start : Nat) : Extent :=
  ⟨start, c.stop, c.row.next⟩

end Current

/-- A heading, a break or a closed block leaves nothing to be interrupted. -/
def finish (bs : List Block) (s : Outline) : Outline :=
  { (s.close false).add bs with interrupts := false, accepts := false }

def openLeaf (leaf : Leaf) (s : Outline) : Outline :=
  { s.close false with leaf := leaf, interrupts := false, accepts := false }

/-- Rows that start with the mark of another construct are no rows of tables. -/
def isReserved (c : Char) : Bool :=
  "#$*_~\x60\x7bei".toList.contains c

def headSize? (o : Options) (c : Current) : Option Nat :=
  if o.extended && !(c.place.head?.any isReserved) then
    (c.place.construct? o).bind (fun p => Table.headSize? p.rest)
  else none

def addText (o : Options) (c : Current) (s : Outline) : Outline :=
  let row := c.place.rest ++ c.row.ending.toList
  let leaf := match s.leaf with
    | .paragraph _ rows => .paragraph (headSize? o c) (row :: rows)
    | _ => .paragraph (if s.leaf = .table && !c.pierces then none else headSize? o c) [row]
  { s with leaf := leaf, interrupts := true, accepts := true }

def isTableRow (o : Options) (c : Current) (s : Outline) : Bool :=
  o.extended && s.leaf == .table && !c.lazy && !c.pierces && !(c.place.head?.any isReserved)

def cells (gs : List Glyph) : List Block :=
  (Table.cells gs).map .cell

def startHtml (c : Current) (kind : HtmlKind) (rest : List Char) (s : Outline) : Outline :=
  if kind.closesOpening rest then s.finish [.html ⟨c.start, c.row.stop⟩]
  else s.openLeaf (.html kind (c.extent c.start))

def startFence (c : Current) (f : Fence) (start : Nat) (s : Outline) : Outline :=
  s.openLeaf (.fenced f (c.extent start))

def marked? (o : Options) (c : Current) (s : Outline) : Option Outline := do
  let p ← c.place.construct? o
  let cs := p.chars
  match Fence.ofLine? o cs with
  | some f => some (s.startFence c f ((p.rest.head?.map Glyph.start).getD c.start))
  | none =>
    match if o.rawHtml then HtmlKind.ofLine? (s.interrupts && !c.lazy) cs else none with
    | some (kind, rest) => some (s.startHtml c kind rest)
    | none =>
      match Heading.text? p.rest with
      | some text => some (s.finish [.heading text])
      | none =>
        if s.leaf.isParagraph && !c.lazy && !c.pierces && isUnderline cs then
          some { s.finish [] with accepts := true }
        else if isBreak cs then some (s.finish [])
        else none

def startLeaf (o : Options) (c : Current) (s : Outline) : Outline :=
  if c.place.isBlank then s.finish []
  else if o.indentedCode && !s.interrupts && tabStop ≤ c.place.indent then s.finish []
  else match marked? o c s with
    | some s => s
    | none =>
      if isTableRow o c s then s.add (cells c.place.rest)
      else addText o c s

def startTable (head : List Glyph) (before : List (List Glyph)) (s : Outline) : Outline :=
  let paragraph := if before.isEmpty then [] else [Block.paragraph (joinRows before)]
  let head := head.filter (·.char != '\n')
  { s with leaf := .table, interrupts := false, accepts := false }.add (paragraph ++ cells head)

def isDelimiterRow (o : Options) (c : Current) (size : Nat) : Bool :=
  !c.lazy && !c.pierces &&
    (c.place.construct? o).any (fun p => Table.delimiterSize? p.rest == some size)

/-- A lazy row ends every block that only its containers' rows may continue. -/
def continueLeaf (o : Options) (c : Current) (s : Outline) : Outline :=
  match s.leaf with
  | .html kind e =>
    if c.lazy || (kind.endsAtBlank && c.place.isBlank) then startLeaf o c (s.finish [])
    else if kind.closes c.place.chars then
      { s with leaf := .none }.finish [.html ⟨e.start, c.row.stop⟩]
    else { s with leaf := .html kind (c.extent e.start) }
  | .fenced fence e =>
    if c.lazy then startLeaf o c (s.finish [])
    else if (c.place.construct? o).any (fun p => fence.isClosedBy p.chars) then
      { s with leaf := .none }.finish (Leaf.ofFence fence ⟨e.start, c.row.stop⟩)
    else { s with leaf := .fenced fence (c.extent e.start) }
  | .paragraph (some size) (head :: before) =>
    if isDelimiterRow o c size then startTable head before s else startLeaf o c s
  | _ => startLeaf o c s

def continueAll (o : Options) (p : Place) : List Container → List Container × Place
  | [] => ([], p)
  | c :: cs =>
    match c.continue? o p with
    | none => ([], p)
    | some (c, p) =>
      let (cs, p) := continueAll o p cs
      (c :: cs, p)

/-- Containers of which `kept` go on. If there are fewer than before, the open
leaf and the other containers end when a new container starts. -/
def pushContainer (kept : List Container) (new : Container) (s : Outline) : Outline :=
  let s := if kept.length < s.containers.length then
      { s.close (!s.lazy) with interrupts := false }
    else s.close false
  { s with containers := kept ++ [new] }

/-- Starts new containers. Only where all go on can the open leaf keep one from
starting, or a paragraph be interrupted. -/
def startContainers (o : Options) : Nat → List Container → Place → Bool → Outline →
    List Container × Place × Bool × Outline
  | 0, kept, p, pierces, s => (kept, p, pierces, s)
  | fuel + 1, kept, p, pierces, s =>
    let all := kept.length == s.containers.length
    if all && s.leaf.isConcrete then (kept, p, pierces, s)
    else match Container.start? o (all && s.interrupts) p with
      | none => (kept, p, pierces, s)
      | some (new, p) =>
        startContainers o fuel (kept ++ [new]) p true (s.pushContainer kept new)

/-- A lazy row keeps the containers only as text of the paragraph before. -/
def settle (kept : List Container) (accepted : Bool) (s : Outline) : Outline :=
  if kept.length == s.containers.length then { s with containers := kept, lazy := false }
  else if accepted && s.accepts then
    { s with containers := kept ++ s.containers.drop kept.length, lazy := true }
  else { s with containers := kept, interrupts := false, lazy := true }

def addRow (o : Options) (s : Outline) (row : Row) : Outline :=
  let (kept, p) := continueAll o (Place.ofRow row) s.containers
  let (kept, p, pierces, s) := startContainers o (row.content.length + 1) kept p false s
  let lazy := kept.length != s.containers.length
  (continueLeaf o ⟨row, p, lazy, pierces⟩ s).settle kept s.accepts

end Outline

/-- The blocks of a text in order. What is open at the end takes the last
newline, unless the last row was lazy. -/
def blocks (o : Options) (text : List Glyph) : List Block :=
  let s := (rows text).foldl (Outline.addRow o) Outline.empty
  (s.close (!s.lazy)).blocks

def Block.labels : Block → List (List Char)
  | .paragraph text => (definitions text).1
  | _ => []

def textTree (setting : Setting) (text : List Glyph) : Tree :=
  .group (Inline.treesOfAll (Inline.ofText setting text))

def Block.tree (o : Options) (defined : List (List Char)) : Block → Tree
  | .html s => Node.tree (.html s)
  | .math s => Node.tree (.math s)
  | .paragraph text => textTree ⟨o, defined, false⟩ (definitions text).2
  | .heading text => textTree ⟨o, defined, false⟩ text
  | .cell text => textTree ⟨o, defined, true⟩ text

/-- A byte order mark at the start is no part of the text. -/
def glyphsOf (text : List Char) : List Glyph :=
  match text with
  | c :: cs => if c.toNat = 0xFEFF then glyphs c.utf8Size cs else glyphs 0 text
  | [] => []

def tree (o : Options) (text : List Char) : Tree :=
  let bs := blocks o (glyphsOf text)
  let defined := bs.flatMap Block.labels
  .group (bs.map (Block.tree o defined))

def parse (o : Options) : Parser :=
  fun text => .ok (tree o text)

def nodes (o : Options) (text : List Char) : List Node :=
  (parse o).nodes text

end SlideDirectives.Markdown
