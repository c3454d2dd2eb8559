/-!
# Where a comment ends

A comment ends at two dashes and a closing bracket, with an exclamation mark
allowed between them. Right after its opening the bracket alone, or one dash
and the bracket, end it too. An unfinished comment ends with the text.
-/

set_option autoImplicit false

namespace SlideDirectives.Html

structure Closed where
  content : List Char
  closing : List Char
  rest : List Char
  deriving DecidableEq, Repr

namespace Closed

/-- What was read since the content so far: nothing yet, or the start of a
possible delimiter. -/
inductive Mode where
  | opening
  | openingDash
  | content
  | dash
  | dashes
  | bang
  deriving DecidableEq, Repr

def Mode.held : Mode → List Char
  | .opening => []
  | .openingDash => ['-']
  | .content => []
  | .dash => ['-']
  | .dashes => ['-', '-']
  | .bang => ['-', '-', '!']

def Mode.closes : Mode → Bool
  | .opening | .openingDash | .dashes | .bang => true
  | .content | .dash => false

def Mode.next (m : Mode) (c : Char) : Mode × List Char :=
  match m, c with
  | .opening, '-' => (.openingDash, [])
  | .openingDash, '-' => (.dashes, [])
  | .dash, '-' => (.dashes, [])
  | .dashes, '-' => (.dashes, ['-'])
  | .dashes, '!' => (.bang, [])
  | .bang, '-' => (.dash, m.held)
  | m, '-' => (.dash, m.held)
  | m, c => (.content, m.held ++ [c])

/-- `acc` holds the content so far in reverse order. -/
def go (m : Mode) (acc : List Char) : List Char → Closed
  | [] => ⟨acc.reverse, m.held, []⟩
  | c::cs =>
    if c = '>' ∧ m.closes then ⟨acc.reverse, m.held ++ ['>'], cs⟩
    else
      let (next, content) := m.next c
      go next (content.reverse ++ acc) cs

def ofText (cs : List Char) : Closed :=
  go .opening [] cs

/-- Any other declaration, up to the first bracket. -/
def bogus (cs : List Char) : Closed :=
  ⟨cs.takeWhile (· != '>'), (cs.dropWhile (· != '>')).take 1, (cs.dropWhile (· != '>')).drop 1⟩

end Closed

end SlideDirectives.Html
