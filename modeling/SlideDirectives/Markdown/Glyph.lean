import SlideDirectives.Text.Basic
import SlideDirectives.Text.Bytes

/-!
# Glyphs

A glyph is a character of the text with its place. Each way to end a line is
one newline glyph: a newline, a carriage return, or the two together.
-/

set_option autoImplicit false

namespace SlideDirectives.Markdown

open Text

structure Glyph where
  char : Char
  start : Nat
  raw : List Char
  deriving DecidableEq, Repr, Inhabited

namespace Glyph

def stop (g : Glyph) : Nat :=
  g.start + byteSize g.raw

def isGap (g : Glyph) : Bool :=
  Text.isGap g.char

end Glyph

def glyphs : Nat → List Char → List Glyph
  | _, [] => []
  | start, '\r' :: '\n' :: cs => ⟨'\n', start, ['\r', '\n']⟩ :: glyphs (start + 2) cs
  | start, c :: cs =>
    ⟨if c = '\r' then '\n' else c, start, [c]⟩ :: glyphs (start + c.utf8Size) cs

def charsOf (gs : List Glyph) : List Char :=
  gs.map Glyph.char

def rawOf (gs : List Glyph) : List Char :=
  gs.flatMap Glyph.raw

def spanOf (gs : List Glyph) : Span :=
  match gs.head?, gs.getLast? with
  | some first, some last => ⟨first.start, last.stop⟩
  | _, _ => ⟨0, 0⟩

/-- A row holds the glyphs before a newline. Only the last row may lack one. -/
structure Row where
  start : Nat
  content : List Glyph
  ending : Option Glyph
  deriving DecidableEq, Repr

namespace Row

def stop (r : Row) : Nat :=
  (r.content.getLast?.map Glyph.stop).getD r.start

def next (r : Row) : Nat :=
  (r.ending.map Glyph.stop).getD r.stop

end Row

def consRow (g : Glyph) : List Row → List Row
  | [] => [⟨g.start, [g], none⟩]
  | r :: rs => ⟨g.start, g :: r.content, r.ending⟩ :: rs

def rows : List Glyph → List Row
  | [] => []
  | g :: gs => if g.char = '\n' then ⟨g.start, [], some g⟩ :: rows gs else consRow g (rows gs)

end SlideDirectives.Markdown
