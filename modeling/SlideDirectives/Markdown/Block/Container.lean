import SlideDirectives.Markdown.Block.Mark

/-!
# Containers

A block quote goes on while its lines have a mark. A list item goes on while
its lines are blank or are indented by its width. An item that starts with a
blank line holds nothing if the next line is blank too.
-/

set_option autoImplicit false

namespace SlideDirectives.Markdown

inductive Container where
  | quote
  | item (width : Nat) (blankStart : Bool)
  deriving DecidableEq, Repr

namespace Container

open Text

def quote? (o : Options) (p : Place) : Option Place := do
  let p ← p.construct? o
  if p.head? = some '>' then some (p.takeChar.takeUpTo 1) else none

def continue? (o : Options) (p : Place) : Container → Option (Container × Place)
  | .quote => (quote? o p).map (.quote, ·)
  | .item width blankStart =>
    if p.isBlank then
      if blankStart then none else some (.item width false, p.takeUpTo width)
    else (p.takeExactly? width).map (.item width false, ·)

def maxDigits : Nat := 9

/-- The place behind the mark of a list item. While a paragraph is open, an
ordered item has to start with one. -/
def mark? (interrupts : Bool) (p : Place) : Option Place :=
  let cs := p.chars
  match cs with
  | '+' :: _ => some p.takeChar
  | '*' :: _ | '-' :: _ => if isBreak cs then none else some p.takeChar
  | _ =>
    let digits := cs.takeWhile Char.isDigit
    let behind := cs.drop digits.length
    let closed := behind.head? = some '.' ∨ behind.head? = some ')'
    let fits := if interrupts then digits = ['1'] else 1 ≤ digits.length ∧ digits.length ≤ maxDigits
    if closed ∧ fits then some ((List.range (digits.length + 1)).foldl (fun p _ => p.takeChar) p)
    else none

/-- White space behind the mark belongs to it, up to four columns; of more,
only the first column does. -/
def afterMark? (p : Place) : Option Place :=
  if !p.atGap then none
  else if p.indent ≤ tabStop then some p.takeGap
  else some p.takeColumn

def item? (o : Options) (interrupts : Bool) (p : Place) : Option (Container × Place) := do
  let marked ← mark? interrupts (← p.construct? o)
  if marked.isBlank then
    if interrupts then none else some (.item (p.widthTo marked + 1) true, marked)
  else
    let q ← afterMark? marked
    some (.item (p.widthTo q) false, q)

def start? (o : Options) (interrupts : Bool) (p : Place) : Option (Container × Place) :=
  ((quote? o p).map (.quote, ·)).or (item? o interrupts p)

end Container

end SlideDirectives.Markdown
