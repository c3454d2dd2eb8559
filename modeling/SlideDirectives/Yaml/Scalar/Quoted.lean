import SlideDirectives.Yaml.Scalar.Plain

/-!
# Quoted scalars

In single quotes only a doubled quote is special. In double quotes a backslash
starts an escape; before a line break it joins the lines.
-/

set_option autoImplicit false

namespace SlideDirectives.Yaml.Quoted

inductive Quote where
  | single
  | double
  deriving DecidableEq, Repr

def Quote.char : Quote → Char
  | .single => '\x27'
  | .double => '\x22'

inductive Mode where
  | text
  | escape
  | code (digits value : Nat)
  deriving DecidableEq, Repr

def simpleEscape? (c : Char) : Option Char :=
  match c with
  | '0' => some '\x00'
  | 'a' => some '\x07'
  | 'b' => some '\x08'
  | 't' => some '\t'
  | '\t' => some '\t'
  | 'n' => some '\n'
  | 'v' => some '\x0b'
  | 'f' => some '\x0c'
  | 'r' => some '\r'
  | 'e' => some '\x1b'
  | ' ' => some ' '
  | '\x22' => some '\x22'
  | '/' => some '/'
  | '\\' => some '\\'
  | 'N' => some nextLine
  | '_' => some '\xa0'
  | 'L' => some lineSeparator
  | 'P' => some paragraphSeparator
  | _ => none

def codeLength? (c : Char) : Option Nat :=
  match c with
  | 'x' => some 2
  | 'u' => some 4
  | 'U' => some 8
  | _ => none

def charOfCode? (n : Nat) : Option Char :=
  if n.isValidChar then some (Char.ofNat n) else none

/-- `acc` holds the text read so far in reverse order. The result is the text
and what follows the closing quote. -/
def go (q : Quote) (m : Mark) (acc : List Char) (gap : Gap) :
    Mode → List Char → Option (List Char × Cursor)
  | _, [] => none
  | .code digits value, c::cs => do
    let digit ← hexDigit? c
    let value := value * 16 + digit
    match digits with
    | 0 => none
    | 1 =>
      let x ← charOfCode? value
      go q m.next (x::acc) Gap.none .text cs
    | digits + 1 => go q m.next acc Gap.none (.code digits value) cs
  | .escape, '\r' :: '\n' :: cs => go q (m.nextLine 2) acc Gap.joined .text cs
  | .escape, c::cs =>
    if isBreak c then go q (m.nextLine 1) acc Gap.joined .text cs
    else match simpleEscape? c, codeLength? c with
      | some x, _ => go q m.next (x::acc) Gap.none .text cs
      | none, some digits => go q m.next acc Gap.none (.code digits 0) cs
      | none, none => none
  | .text, '\r' :: '\n' :: cs => go q (m.nextLine 2) acc (gap.addBreak '\n') .text cs
  | .text, c::cs =>
    if isBreak c then go q (m.nextLine 1) acc (gap.addBreak c) .text cs
    else if Text.isGap c then go q m.next acc (gap.addBlank c) .text cs
    else if m.column == 0 && isDocumentMarker (c::cs) then none
    else
      let acc := gap.text.reverse ++ acc
      if c == q.char then
        match q, cs with
        | .single, '\x27' :: cs => go q m.next.next ('\x27' :: acc) Gap.none .text cs
        | _, _ => some (acc.reverse, ⟨cs, m.next⟩)
      else if q = .double ∧ c = '\\' then go q m.next acc Gap.none .escape cs
      else go q m.next (c::acc) Gap.none .text cs

def scan? (q : Quote) (c : Cursor) : Option (List Char × Cursor) :=
  go q c.mark.next [] Gap.none .text c.rest.tail

end SlideDirectives.Yaml.Quoted
