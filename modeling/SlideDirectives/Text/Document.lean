import SlideDirectives.Text.Bytes

/-!
# Documents

A position is a zero-based line and a column in UTF-16 code units. Positions are
ordered first by line and then by column. A document resolves byte offsets to
positions and back, by a table of where its lines start. Only the newline
character ends a line; offsets past the text count as its end, offsets inside a
character as its start, columns past a line as the end of the line.
-/

set_option autoImplicit false

namespace SlideDirectives.Text

structure Position where
  line : Nat
  character : Nat
  deriving DecidableEq, Repr, Inhabited

namespace Position

def origin : Position := ⟨0, 0⟩

def le (p q : Position) : Bool :=
  p.line < q.line || (p.line == q.line && p.character ≤ q.character)

def compare (p q : Position) : Ordering :=
  (Ord.compare p.line q.line).then (Ord.compare p.character q.character)

end Position

def units (c : Char) : Nat :=
  if c.toNat < 0x10000 then 1 else 2

def unitCount : List Char → Nat
  | [] => 0
  | c::cs => units c + unitCount cs

/-- A range keeps the byte span it was resolved from. -/
structure Range where
  start : Position
  stop : Position
  span : Span
  deriving DecidableEq, Repr, Inhabited

def Range.contains (r : Range) (p : Position) : Bool :=
  r.start.le p && p.le r.stop

def newlineEnds : Nat → List Char → List Nat
  | _, [] => []
  | n, c::cs =>
    if c = '\n' then (n + 1) :: newlineEnds (n + 1) cs else newlineEnds (n + c.utf8Size) cs

/-- The last boundary up to an offset, from which one steps back. -/
def floorBoundary (cs : List Char) : Nat → Nat
  | 0 => 0
  | n + 1 => if isBoundary cs (n + 1) then n + 1 else floorBoundary cs n

/-- Bytes before the first character at or past the given column. -/
def columnBytes : Nat → List Char → Nat
  | 0, _ => 0
  | _, [] => 0
  | n + 1, c::cs => c.utf8Size + columnBytes (n + 1 - units c) cs

structure Document where
  text : List Char
  deriving DecidableEq, Repr, Inhabited

namespace Document

def lineStarts (d : Document) : List Nat :=
  0 :: newlineEnds 0 d.text

def lineCount (d : Document) : Nat :=
  d.lineStarts.length

def lineStart? (d : Document) (line : Nat) : Option Nat :=
  d.lineStarts[line]?

def lineStop (d : Document) (line : Nat) : Nat :=
  ((d.lineStart? (line + 1)).map (· - 1)).getD (byteSize d.text)

/-- The line of a byte is the last one that starts up to it. -/
def lineAt (d : Document) (n : Nat) : Nat :=
  (d.lineStarts.takeWhile (· ≤ n)).length - 1

def positionAt (d : Document) (offset : Nat) : Position :=
  let n := floorBoundary d.text (min offset (byteSize d.text))
  let line := d.lineAt n
  ⟨line, unitCount (slice d.text ⟨d.lineStarts.getD line 0, n⟩)⟩

def offsetAt (d : Document) (p : Position) : Nat :=
  match d.lineStart? p.line with
  | some start => start + columnBytes p.character (slice d.text ⟨start, d.lineStop p.line⟩)
  | none => byteSize d.text

def textIn (d : Document) (s : Span) : List Char :=
  slice d.text s

def rangeOf (d : Document) (s : Span) : Range :=
  ⟨d.positionAt s.start, d.positionAt s.stop, s⟩

end Document

end SlideDirectives.Text
