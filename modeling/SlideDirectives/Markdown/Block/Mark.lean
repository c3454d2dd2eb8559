import SlideDirectives.Markdown.Place

/-!
# Fences, headings and breaks

A fence is a run of backticks, tildes or dollars. The block that it opens goes
on to a line that holds a run of the same mark, not shorter than the first. A
heading is opened by one to six number signs, or made of a paragraph by the
line under it. A thematic break is a line of three or more equal marks.
-/

set_option autoImplicit false

namespace SlideDirectives.Markdown

open Text

structure Fence where
  mark : Char
  size : Nat
  deriving DecidableEq, Repr

namespace Fence

def isMath (f : Fence) : Bool :=
  f.mark == '$'

def minSize? (o : Options) (mark : Char) : Option Nat :=
  if mark = '\x60' ∨ mark = '~' then some 3
  else if mark = '$' ∧ o.math then some 2
  else none

/-- Behind tildes any text may stand; behind other marks it may not hold the
mark, since it could then close a span within a line. -/
def ofLine? (o : Options) (cs : List Char) : Option Fence := do
  let mark ← cs.head?
  let least ← minSize? o mark
  let size := (cs.takeWhile (· == mark)).length
  let info := cs.drop size
  if size < least || (mark != '~' && info.contains mark) then none else some ⟨mark, size⟩

def isClosedBy (f : Fence) (cs : List Char) : Bool :=
  f.size ≤ (cs.takeWhile (· == f.mark)).length && (cs.dropWhile (· == f.mark)).all isGap

end Fence

/-- A line of marks with white space anywhere between and after them. -/
def isBreak (cs : List Char) : Bool :=
  match cs with
  | [] => false
  | c :: _ =>
    (c == '*' || c == '-' || c == '_') && cs.all (fun x => x == c || isGap x) &&
      3 ≤ cs.count c

/-- A line of marks with white space after them only. -/
def isUnderline (cs : List Char) : Bool :=
  match cs with
  | [] => false
  | c :: _ => (c == '-' || c == '=') && (cs.dropWhile (· == c)).all isGap

namespace Heading

def isMark (cs : List Char) : Bool :=
  let marks := cs.takeWhile (· == '#')
  let rest := cs.dropWhile (· == '#')
  1 ≤ marks.length && marks.length ≤ 6 && rest.head?.all isGap

def skipMarks : Nat → List Glyph → List Glyph
  | 0, gs => gs
  | fuel + 1, gs =>
    let gs := gs.dropWhile Glyph.isGap
    let word := gs.takeWhile (! ·.isGap)
    if word.isEmpty || word.any (·.char != '#') then gs
    else skipMarks fuel (gs.drop word.length)

def text? (gs : List Glyph) : Option (List Glyph) :=
  if isMark (charsOf gs) then
    let text := (skipMarks gs.length gs).reverse
    some (skipMarks gs.length text).reverse
  else none

end Heading

end SlideDirectives.Markdown
