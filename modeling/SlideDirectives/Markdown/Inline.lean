import SlideDirectives.Markdown.Inline.Address
import SlideDirectives.Markdown.Inline.Emphasis
import SlideDirectives.Markdown.Inline.Resource
import SlideDirectives.Markdown.Inline.Tag
import SlideDirectives.Markdown.Tree

/-!
# Text within a line

A text is read from the left. Brackets are kept open until one that closes
them makes a link or an image; the brackets of neither stay in the text. A
link holds no other link. An image holds only the plain text of its label.
-/

set_option autoImplicit false

namespace SlideDirectives.Markdown

open Text

inductive Inline where
  | piece (p : Piece)
  | run (r : Run)
  | leaf (node : Option Node) (text : List Char)
  | link (inner : List Inline)
  | image (node : Option Node)
  deriving Repr

namespace Inline

def run? : Inline → Option Run
  | .run r => some r
  | _ => none

def runs (is : List Inline) : List Run :=
  is.filterMap run?

def leftover (kept : List Run) (r : Run) : List Piece :=
  match kept.find? (·.start == r.start) with
  | some k => List.replicate k.size (.plain r.mark)
  | none => []

mutual

def pieces (kept : List Run) : Inline → List Piece
  | .piece p => [p]
  | .run r => leftover kept r
  | .leaf _ text => [.fixed text]
  | .link inner => piecesOfAll (Run.settle (runs inner)) inner
  | .image _ => [.fixed []]

def piecesOfAll (kept : List Run) : List Inline → List Piece
  | [] => []
  | i :: is => i.pieces kept ++ piecesOfAll kept is

end

/-- The plain text of a label. Images in it have none. -/
def alt (is : List Inline) : List Char :=
  Piece.join true (piecesOfAll (Run.settle (runs is)) is)

mutual

def trees : Inline → List Tree
  | .leaf node _ => node.toList.map Node.tree
  | .image node => node.toList.map Node.tree
  | .link inner => [.group (treesOfAll inner)]
  | .piece _ => []
  | .run _ => []

def treesOfAll : List Inline → List Tree
  | [] => []
  | i :: is => i.trees ++ treesOfAll is

end

end Inline

/-- An open bracket. `before` holds what was read before it, the last item
first, and `label` is the text from the bracket on. -/
structure Bracket where
  marks : List Glyph
  label : List Glyph
  active : Bool
  before : List Inline
  deriving Repr

namespace Bracket

def isImage (b : Bracket) : Bool :=
  b.marks.length == 2

def loosen (b : Bracket) (items : List Inline) : List Inline :=
  items ++ (b.marks.map (fun g => Inline.piece (glyphPiece g))).reverse ++ b.before

/-- A link keeps every bracket around it from opening another one. -/
def deactivate (b : Bracket) : Bracket :=
  if b.isImage then b else { b with active := false }

end Bracket

/-- `previous` is the character before the place; `escaped` says that it was
escaped. Items are held with the last one first. -/
structure Reader where
  previous : Option Char
  escaped : Bool
  brackets : List Bracket
  items : List Inline
  deriving Repr

structure Setting where
  options : Options
  defined : List (List Char)
  inTable : Bool
  deriving Repr

namespace Reader

def empty : Reader := ⟨none, false, [], []⟩

def push (read : List Glyph) (i : Inline) (r : Reader) : Reader :=
  { r with
    previous := (read.getLast?.map Glyph.char).or r.previous, escaped := false, items := i :: r.items }

def plain (g : Glyph) (r : Reader) : Reader :=
  r.push [g] (.piece (glyphPiece g))

def openBracket (marks label : List Glyph) (r : Reader) : Reader :=
  { r with
    previous := some '[', escaped := false, brackets := ⟨marks, label, true, r.items⟩ :: r.brackets,
    items := [] }

def finish (r : Reader) : List Inline :=
  (r.brackets.foldl (fun items b => b.loosen items) r.items).reverse

def made (b : Bracket) (r : Reader) (read : List Glyph) : Link → Inline
  | .reference _ => if b.isImage then .image none else .link r.items.reverse
  | .resource resource _ =>
    if b.isImage then
      .image (some (.image (spanOf read) ⟨resource.url, Inline.alt r.items.reverse, resource.title⟩))
    else .link r.items.reverse

def linkRest : Link → List Glyph
  | .reference rest => rest
  | .resource _ rest => rest

def close (setting : Setting) (g : Glyph) (rest : List Glyph) (r : Reader) :
    Reader × List Glyph :=
  match r.brackets with
  | [] => (r.plain g, rest)
  | b :: bs =>
    let label := b.label.take (b.label.length - rest.length - 1)
    let loose := ({ r with brackets := bs, items := b.loosen r.items }.plain g, rest)
    if !b.active then loose
    else match Link.read? setting.defined (charsOf label) rest with
      | none => loose
      | some link =>
        let behind := linkRest link
        let read := b.marks ++ b.label.take (b.label.length - behind.length)
        let bs := if b.isImage then bs else bs.map Bracket.deactivate
        let outer := { r with brackets := bs, items := b.before }
        (outer.push read (made b r read link), behind)

end Reader

namespace Inline

def htmlText : Bool → List Glyph → List Char
  | _, [] => []
  | fresh, g :: gs =>
    if fresh && g.isGap then htmlText true gs else g.raw ++ htmlText (g.char == '\n') gs

abbrev Found := Option (List Glyph × Inline × List Glyph)

def found (gs : List Glyph) (make : List Glyph → Inline) (rest : Option (List Char)) : Found :=
  rest.map (fun rest =>
    let size := gs.length - rest.length
    (gs.take size, make (gs.take size), gs.drop size))

def quoted? (setting : Setting) (r : Reader) (g : Glyph) (gs : List Glyph) : Found :=
  if r.previous = some g.char ∧ !r.escaped then none
  else if g.char = '$' ∧ !setting.options.math then none
  else
    (Quoted.read? gs).map (fun (inner, rest) =>
      let read := gs.take (gs.length - rest.length)
      let node := if g.char = '$' then some (Node.inlineMath (spanOf read)) else none
      (read, .leaf node (Quoted.value setting.inTable inner), rest))

def tagged? (setting : Setting) (gs : List Glyph) : Found :=
  let cs := (charsOf gs).tail
  match Address.bracketed? cs with
  | some rest => found gs (fun read => .leaf none (rawOf (read.tail.dropLast))) (some rest)
  | none =>
    if setting.options.rawHtml then
      found gs (fun read => .leaf (some (.html (spanOf read))) (htmlText false read)) (Tag.read? cs)
    else none

def literal? (setting : Setting) (r : Reader) (gs : List Glyph) : Found :=
  if setting.options.extended then
    found gs (fun read => .leaf none (rawOf read)) (Address.literal? r.previous (charsOf gs))
  else none

def reference? (gs : List Glyph) : Found :=
  (CharacterReference.read? (charsOf gs.tail)).map (fun (text, size) =>
    (gs.take (size + 1), .leaf none text, gs.drop (size + 1)))

def marks? (setting : Setting) (r : Reader) (g : Glyph) (gs : List Glyph) : Found :=
  if g.char = '~' ∧ !setting.options.extended then none
  else
    let read := gs.takeWhile (·.char == g.char)
    let rest := gs.drop read.length
    some (read, .run (Run.ofContext setting.options.extended g.start g.char read.length r.previous
      (rest.head?.map Glyph.char)), rest)

def construct? (setting : Setting) (r : Reader) (g : Glyph) (gs : List Glyph) : Found :=
  match g.char with
  | '$' | '\x60' => quoted? setting r g gs
  | '&' => reference? gs
  | '<' => tagged? setting gs
  | '*' | '_' | '~' => marks? setting r g gs
  | 'h' | 'H' | 'w' | 'W' => literal? setting r gs
  | _ => none

def go (setting : Setting) : Nat → Reader → List Glyph → List Inline
  | 0, r, _ => r.finish
  | _, r, [] => r.finish
  | fuel + 1, r, g :: gs =>
    match g.char, gs with
    | '[', gs => go setting fuel (r.openBracket [g] gs) gs
    | ']', gs =>
      let (r, rest) := r.close setting g gs
      go setting fuel r rest
    | '!', h :: hs =>
      if h.char = '[' then go setting fuel (r.openBracket [g, h] hs) hs
      else go setting fuel (r.plain g) (h :: hs)
    | '\\', h :: hs =>
      if isAsciiPunctuation h.char then
        go setting fuel { r.push [h] (.piece (.fixed [h.char])) with escaped := true } hs
      else if h.char = '\n' then go setting fuel (r.push [h] (.piece .lineBreak)) hs
      else go setting fuel (r.plain g) (h :: hs)
    | _, gs =>
      match construct? setting r g (g :: gs) with
      | some (read, i, rest) => go setting fuel (r.push read i) rest
      | none => go setting fuel (r.plain g) gs

def ofText (setting : Setting) (text : List Glyph) : List Inline :=
  go setting text.length Reader.empty text

end Inline

end SlideDirectives.Markdown
