import SlideDirectives.Markdown.Glyph
import SlideDirectives.Markdown.Tree

/-!
# Places in a row

White space is measured in columns, and a tab reaches to the next multiple of
four. A place may stand within a tab, when some of its columns were taken.
-/

set_option autoImplicit false

namespace SlideDirectives.Markdown

structure Place where
  rest : List Glyph
  column : Nat
  taken : Nat
  deriving DecidableEq, Repr

def tabStop : Nat := 4

namespace Place

def ofRow (r : Row) : Place := ⟨r.content, 0, 0⟩

def head? (p : Place) : Option Char :=
  p.rest.head?.map Glyph.char

def atGap (p : Place) : Bool :=
  p.rest.head?.any Glyph.isGap

def takeColumn (p : Place) : Place :=
  match p.rest with
  | [] => p
  | g :: gs =>
    if g.char = '\t' ∧ (p.column + 1) % tabStop ≠ 0 then ⟨g :: gs, p.column + 1, p.taken + 1⟩
    else ⟨gs, p.column + 1, 0⟩

def takeUpTo : Nat → Place → Place
  | 0, p => p
  | n + 1, p => if p.atGap then takeUpTo n p.takeColumn else p

def takeExactly? : Nat → Place → Option Place
  | 0, p => some p
  | n + 1, p => if p.atGap then takeExactly? n p.takeColumn else none

def takeGap (p : Place) : Place :=
  takeUpTo (tabStop * p.rest.length) p

def takeChar (p : Place) : Place :=
  ⟨p.rest.drop 1, p.column + 1, 0⟩

def indent (p : Place) : Nat :=
  p.takeGap.column - p.column

def isBlank (p : Place) : Bool :=
  p.rest.all Glyph.isGap

def construct? (o : Options) (p : Place) : Option Place :=
  if o.allowsIndent p.indent then some p.takeGap else none

def chars (p : Place) : List Char :=
  charsOf p.rest

/-- The width of the text between two places of a row. A tab that was taken as
a whole counts once, one that was taken in part counts its columns. -/
def widthTo (p q : Place) : Nat :=
  let before := if p.taken = 0 then 0 else tabStop - p.taken
  let entered := if p.taken = 0 then 0 else 1
  let after := if q.taken = 0 then 0 else q.taken - 1
  let held := if q.taken = 0 then 0 else 1
  Text.byteSize (rawOf p.rest) - entered - Text.byteSize (rawOf q.rest) + held + before + after

end Place

end SlideDirectives.Markdown
