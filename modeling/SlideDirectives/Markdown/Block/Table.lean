import SlideDirectives.Markdown.Place

/-!
# Tables

A table starts with a row of cells and a line of as many delimiters. The text
of each cell is read on its own.
-/

set_option autoImplicit false

namespace SlideDirectives.Markdown.Table

open Text

/-- Cells are separated by bars that no backslash stands before. -/
def splitCells : List Glyph → List (List Glyph)
  | [] => [[]]
  | g :: gs =>
    if g.char = '|' then [] :: splitCells gs
    else match g.char, gs with
      | '\\', h :: hs =>
        if h.char = '|' ∨ h.char = '\\' then prependAll [g, h] (splitCells hs)
        else prependAll [g] (splitCells (h :: hs))
      | _, gs => prependAll [g] (splitCells gs)
where
  prependAll (front : List Glyph) : List (List Glyph) → List (List Glyph)
    | [] => [front]
    | cell :: cells => (front ++ cell) :: cells

def trimGaps (gs : List Glyph) : List Glyph :=
  ((gs.dropWhile Glyph.isGap).reverse.dropWhile Glyph.isGap).reverse

/-- The cells of a row. A bar at either end of the row opens or closes a cell
and stands for no other one. -/
def cells (gs : List Glyph) : List (List Glyph) :=
  let all := (splitCells (trimGaps gs)).map trimGaps
  let inner := if (trimGaps gs).head?.any (·.char == '|') then all.drop 1 else all
  match inner.getLast? with
  | some [] => inner.dropLast
  | _ => inner

/-- The number of cells in a row that may head a table. One bar alone is no
such row. -/
def headSize? (gs : List Glyph) : Option Nat :=
  let row := trimGaps gs
  if row.isEmpty || charsOf row == ['|'] then none else some (cells gs).length

def isMark (c : Char) : Bool :=
  c == ':' || c == '|'

def isDelimiter (cs : List Char) : Bool :=
  let run := match cs with
    | ':' :: cs => cs
    | cs => cs
  let behind := run.dropWhile (· == '-')
  run.head? == some '-' && (behind.isEmpty || behind == [':'])

def delimiterSize? (gs : List Glyph) : Option Nat :=
  let found := cells gs
  if (charsOf gs).any isMark && found.all (isDelimiter ∘ charsOf) && !found.isEmpty
  then some found.length else none

end SlideDirectives.Markdown.Table
