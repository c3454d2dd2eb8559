import SlideDirectives.Markdown.Entity
import SlideDirectives.Markdown.Glyph

/-!
# Escapes and references to characters

A backslash takes the meaning of the ASCII punctuation behind it. A reference
stands for the characters that it names or whose code it gives.
-/

set_option autoImplicit false

namespace SlideDirectives.Markdown

def isAsciiPunctuation (c : Char) : Bool :=
  let n := c.toNat
  (0x21 ≤ n && n ≤ 0x2F) || (0x3A ≤ n && n ≤ 0x40) || (0x5B ≤ n && n ≤ 0x60) ||
    (0x7B ≤ n && n ≤ 0x7E)

namespace CharacterReference

def maxName : Nat := 31

def maxDecimal : Nat := 7

def maxHexadecimal : Nat := 6

def isForbidden (code : Nat) : Bool :=
  code ≤ 0x08 || code == 0x0B || (0x0E ≤ code && code ≤ 0x1F) || (0x7F ≤ code && code ≤ 0x9F)

def ofCode (code : Nat) : Char :=
  if code.isValidChar && !isForbidden code then Char.ofNat code else Char.ofNat 0xFFFD

def isHexDigit (c : Char) : Bool :=
  c.isDigit || ('a' ≤ c && c ≤ 'f') || ('A' ≤ c && c ≤ 'F')

def digitsValue (base : Nat) (cs : List Char) : Nat :=
  cs.foldl (fun n c => n * base + Entity.hexValue c.toUpper) 0

def codeOf? (base most : Nat) (cs : List Char) : Option (List Char) :=
  if cs.isEmpty || most < cs.length then none else some [ofCode (digitsValue base cs)]

def decode? (cs : List Char) : Option (List Char) :=
  match cs with
  | '#' :: 'x' :: cs => if cs.all isHexDigit then codeOf? 16 maxHexadecimal cs else none
  | '#' :: 'X' :: cs => if cs.all isHexDigit then codeOf? 16 maxHexadecimal cs else none
  | '#' :: cs => if cs.all Char.isDigit then codeOf? 10 maxDecimal cs else none
  | cs => if maxName < cs.length then none else Entity.named? cs

def isBody (c : Char) : Bool :=
  c.isAlphanum || c == '#'

def read? (cs : List Char) : Option (List Char × Nat) :=
  let body := (cs.take (maxName + 1)).takeWhile isBody
  if (cs.drop body.length).head? = some ';' then
    (decode? body).map (·, body.length + 1)
  else none

end CharacterReference

/-- What a text is made of: characters as they stand, text that an escape or a
reference gives, and ends of lines. -/
inductive Piece where
  | plain (c : Char)
  | fixed (cs : List Char)
  | newline (raw : List Char)
  | lineBreak
  deriving DecidableEq, Repr

namespace Piece

def isPlainGap : Char × Bool → Bool
  | (c, asIs) => asIs && Text.isGap c

/-- White space around a newline is dropped. Where two or more spaces stand
before it, and nothing else, the line is broken and the newline is dropped
too. `before` is the text so far in reverse, with what is plain in it. -/
def joinGo (breaks : Bool) (before : List (Char × Bool)) (fresh : Bool) : List Piece → List Char
  | [] => before.reverse.map Prod.fst
  | .plain c :: ps =>
    if fresh && Text.isGap c then joinGo breaks before true ps
    else joinGo breaks ((c, true) :: before) false ps
  | .fixed cs :: ps => joinGo breaks ((cs.map (·, false)).reverse ++ before) false ps
  | .newline raw :: ps =>
    let gap := before.takeWhile isPlainGap
    let kept := before.drop gap.length
    if breaks && 2 ≤ gap.length && gap.all (·.1 == ' ') then joinGo breaks kept true ps
    else joinGo breaks ((raw.map (·, false)).reverse ++ kept) true ps
  | .lineBreak :: ps => joinGo breaks before true ps

def join (breaks : Bool) (ps : List Piece) : List Char :=
  joinGo breaks [] false ps

end Piece

def glyphPiece (g : Glyph) : Piece :=
  if g.char = '\n' then .newline g.raw else .plain g.char

def textPiecesGo : Nat → List Glyph → List Piece
  | 0, _ => []
  | _, [] => []
  | fuel + 1, g :: gs =>
    match g.char, gs with
    | '\\', h :: hs =>
      if isAsciiPunctuation h.char then .fixed [h.char] :: textPiecesGo fuel hs
      else glyphPiece g :: textPiecesGo fuel gs
    | '&', gs =>
      match CharacterReference.read? (charsOf gs) with
      | some (text, size) => .fixed text :: textPiecesGo fuel (gs.drop size)
      | none => glyphPiece g :: textPiecesGo fuel gs
    | _, gs => glyphPiece g :: textPiecesGo fuel gs

def textOf (gs : List Glyph) : List Char :=
  Piece.join false (textPiecesGo gs.length gs)

end SlideDirectives.Markdown
