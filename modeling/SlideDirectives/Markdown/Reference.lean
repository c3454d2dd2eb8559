import SlideDirectives.Markdown.Glyph
import SlideDirectives.Text.UpperCase

/-!
# Destinations, titles and labels

These are the parts of links and of the definitions that links refer to. Each
is read from the front of a text, and what follows it is returned. A paragraph
may start with definitions of labels. Each fills its lines: a label, a colon, a
destination, and maybe a title.
-/

set_option autoImplicit false

namespace SlideDirectives.Markdown

open Text

def isSpacing (c : Char) : Bool :=
  isGap c || c == '\n'

def isControl (c : Char) : Bool :=
  (1 ≤ c.toNat && c.toNat ≤ 0x1F) || c.toNat == 0x7F

namespace Reference

/-- White space with at most one newline in it. -/
def skipSpacing (cs : List Char) : List Char :=
  match cs.dropWhile isGap with
  | '\n' :: cs => cs.dropWhile isGap
  | cs => cs

def enclosed? : List Char → Option (List Char)
  | [] => none
  | '>' :: cs => some cs
  | '\\' :: c :: cs =>
    if c = '<' ∨ c = '>' ∨ c = '\\' then enclosed? cs else enclosed? (c :: cs)
  | c :: cs => if c = '<' ∨ c = '\n' then none else enclosed? cs

/-- The rest behind a bare destination, in which at most `limit` parentheses
may be open at a time. -/
def bare? (limit : Option Nat) : Nat → List Char → Option (List Char)
  | 0, [] => some []
  | _ + 1, [] => none
  | 0, ')' :: cs => some (')' :: cs)
  | opened + 1, ')' :: cs => bare? limit opened cs
  | opened, '(' :: cs =>
    if limit.all (opened < ·) then bare? limit (opened + 1) cs else none
  | opened, '\\' :: c :: cs =>
    if c = '(' ∨ c = ')' ∨ c = '\\' then bare? limit opened cs else bare? limit opened (c :: cs)
  | opened, c :: cs =>
    if isSpacing c then if opened = 0 then some (c :: cs) else none
    else if isControl c then none
    else bare? limit opened cs

structure Target where
  skipped : Nat
  size : Nat
  rest : List Char
  deriving Repr

def destination? (limit : Option Nat) (cs : List Char) : Option Target :=
  match cs with
  | '<' :: inner =>
    (enclosed? inner).map (fun rest => ⟨1, inner.length - rest.length - 1, rest⟩)
  | c :: _ =>
    if isControl c || c == ' ' || c == ')' then none
    else (bare? limit 0 cs).map (fun rest => ⟨0, cs.length - rest.length, rest⟩)
  | [] => none

def titleEnd? (mark : Char) : List Char → Option (List Char)
  | [] => none
  | c :: cs =>
    if c = mark then some cs
    else match c, cs with
      | '\\', d :: ds => if d = mark ∨ d = '\\' then titleEnd? mark ds else titleEnd? mark (d :: ds)
      | _, cs => titleEnd? mark cs

def titleMark? (c : Char) : Option Char :=
  if c = '\x22' ∨ c = '\x27' then some c else if c = '(' then some ')' else none

def title? (cs : List Char) : Option Target := do
  let first ← cs.head?
  let mark ← titleMark? first
  let rest ← titleEnd? mark cs.tail
  some ⟨1, cs.length - rest.length - 2, rest⟩

def maxLabel : Nat := 999

/-- Reads a label behind its bracket, up to the bracket that closes it. `seen`
says that it holds more than white space so far. -/
def labelEnd? : Nat → Bool → List Char → Option (List Char)
  | _, _, [] => none
  | size, seen, c :: cs =>
    if maxLabel < size || c == '[' then none
    else if c = ']' then if seen then some cs else none
    else
      let seen := seen || !isSpacing c
      let size := if c = '\n' then size else size + c.utf8Size
      match c, cs with
      | '\\', d :: ds =>
        if d = '[' ∨ d = ']' ∨ d = '\\' then labelEnd? (size + 1) seen ds
        else labelEnd? size seen (d :: ds)
      | _, cs => labelEnd? size seen cs

def label? (cs : List Char) : Option (List Char × List Char) :=
  match cs with
  | '[' :: inner => do
    let rest ← labelEnd? 0 false inner
    some (inner.take (inner.length - rest.length - 1), rest)
  | _ => none

end Reference

open Reference

def joinWords : Nat → List Char → List Char
  | 0, _ => []
  | fuel + 1, cs =>
    let cs := cs.dropWhile isSpacing
    let word := cs.takeWhile (! isSpacing ·)
    let rest := (cs.drop word.length).dropWhile isSpacing
    if rest.isEmpty then word else word ++ ' ' :: joinWords fuel rest

def labelKey (cs : List Char) : List Char :=
  (joinWords cs.length cs).flatMap upperCase

def lineEnd? (cs : List Char) : Option (List Char) :=
  match cs.dropWhile isGap with
  | [] => some []
  | c :: cs => if c = '\n' then some cs else none

def titleLineEnd? (cs : List Char) : Option (List Char) :=
  if cs.head?.any isSpacing then do lineEnd? (← title? (skipSpacing cs)).rest else none

def definition? (cs : List Char) : Option (List Char × List Char) := do
  let (label, behind) ← label? (cs.dropWhile isGap)
  if behind.head? ≠ some ':' then none
  else
    let target ← destination? none (skipSpacing behind.tail)
    let rest ← (titleLineEnd? target.rest).or (lineEnd? target.rest)
    some (labelKey label, rest)

def definitionsGo : Nat → List Char → List (List Char) × List Char
  | 0, cs => ([], cs)
  | fuel + 1, cs =>
    match definition? cs with
    | none => ([], cs)
    | some (label, rest) =>
      let (labels, rest) := definitionsGo fuel rest
      (label :: labels, rest)

def definitions (text : List Glyph) : List (List Char) × List Glyph :=
  let cs := charsOf text
  let (labels, rest) := definitionsGo cs.length cs
  (labels, text.drop (cs.length - rest.length))

end SlideDirectives.Markdown
