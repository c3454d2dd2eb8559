import SlideDirectives.Markdown.Glyph
import SlideDirectives.Text.Punctuation

/-!
# Runs of marks

Code and math within a line stand between two runs of the same mark and of the
same size. Nothing within the span has a meaning of its own. A run of emphasis
marks opens emphasis before a word and closes it behind one. Marks that open and
close together are used up, two at a time where both runs have as many; the
others stay in the text.
-/

set_option autoImplicit false

namespace SlideDirectives.Markdown.Quoted

def split? (mark : Char) (size : Nat) : Nat → List Glyph → Option (List Glyph × List Glyph)
  | 0, _ => none
  | _, [] => none
  | fuel + 1, gs =>
    let inner := gs.takeWhile (·.char != mark)
    let behind := gs.drop inner.length
    let run := behind.takeWhile (·.char == mark)
    let rest := behind.drop run.length
    if run.isEmpty then none
    else if run.length = size then some (inner, rest)
    else (split? mark size fuel rest).map (fun (more, rest) => (inner ++ run ++ more, rest))

def read? (gs : List Glyph) : Option (List Glyph × List Glyph) := do
  let first ← gs.head?
  let size := (gs.takeWhile (·.char == first.char)).length
  split? first.char size gs.length (gs.drop size)

/-- One space at either end is dropped if there is more than spaces. -/
def trim (cs : List Char) : List Char :=
  if 2 < cs.length ∧ cs.head? = some ' ' ∧ cs.getLast? = some ' ' ∧ cs.any (· != ' ') then
    cs.tail.dropLast
  else cs

/-- The text of a span. In a table a backslash before a bar is dropped. -/
def value (inTable : Bool) (inner : List Glyph) : List Char :=
  trim (if inTable then dropEscapes (rawOf inner) else rawOf inner)
where
  dropEscapes : List Char → List Char
    | [] => []
    | '\\' :: '|' :: cs => '|' :: dropEscapes cs
    | c :: cs => c :: dropEscapes cs

end SlideDirectives.Markdown.Quoted

namespace SlideDirectives.Markdown

open Text

structure Run where
  start : Nat
  mark : Char
  size : Nat
  opens : Bool
  closes : Bool
  deriving DecidableEq, Repr

namespace Run

/-- Marks that other marks may stand next to as if they were words. -/
def isNeighbour (extended : Bool) (c : Option Char) : Bool :=
  c == some '*' || c == some '_' || (extended && c == some '~')

def ofContext (extended : Bool) (start : Nat) (mark : Char) (size : Nat) (before after : Option Char) :
    Run :=
  let b := CharClass.ofChar? before
  let a := CharClass.ofChar? after
  let opens := a == .word || (a == .punctuation && b != .word) ||
    (mark != '~' && isNeighbour extended after)
  let closes := b == .word || (b == .punctuation && a != .word) ||
    (mark != '~' && isNeighbour extended before)
  if mark = '_' then
    ⟨start, mark, size, opens && (b != .word || !closes), closes && (a != .word || !opens)⟩
  else ⟨start, mark, size, opens, closes⟩

def matchesOpening (closing opening : Run) : Bool :=
  opening.opens && opening.mark == closing.mark &&
    !((opening.closes || closing.opens) && closing.size % 3 != 0 &&
      (opening.size + closing.size) % 3 == 0) &&
    !(closing.mark == '~' && (closing.size != opening.size || 2 < closing.size))

def shrink (n : Nat) (r : Run) : Run :=
  { r with size := r.size - n }

/-- The runs between an opening and what it closes can open nothing more. -/
def shut (r : Run) : Run :=
  { r with opens := false }

def keep (r : Run) : List Run :=
  if r.size = 0 then [] else [r]

/-- Splits runs, the nearest first, at the first one that opens what the run
closes. -/
def findOpening (closing : Run) : List Run → Option (List Run × Run × List Run)
  | [] => none
  | r :: rs =>
    if closing.matchesOpening r then some ([], r, rs)
    else (findOpening closing rs).map (fun (between, opening, rest) => (r :: between, opening, rest))

/-- `before` holds the runs that were passed, the nearest first. -/
def settleGo : Nat → List Run → List Run → List Run
  | 0, before, rs => before.reverse ++ rs
  | _, before, [] => before.reverse
  | fuel + 1, before, r :: rs =>
    match if r.closes then findOpening r before else none with
    | none => settleGo fuel (r :: before) rs
    | some (between, opening, rest) =>
      let used := if 1 < opening.size && 1 < r.size then 2 else 1
      let before := between.map shut ++ (opening.shrink used).keep ++ rest
      settleGo fuel before ((r.shrink used).keep ++ rs)

def settle (rs : List Run) : List Run :=
  settleGo (rs.foldl (fun n r => n + r.size + 1) 0) [] rs

end Run

end SlideDirectives.Markdown
