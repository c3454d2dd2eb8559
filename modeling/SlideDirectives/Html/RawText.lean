import SlideDirectives.Html.Tag

/-!
# Raw text

The content of some elements is plain text up to their end tag. In a script, a
comment opening hides a nested script element together with its end tag.
-/

set_option autoImplicit false

namespace SlideDirectives.Html

inductive TextType where
  | raw
  | script
  | endless
  deriving DecidableEq, Repr

namespace RawText

def skip (name : List Char) : List Char → List Char
  | [] => []
  | '<' :: '/' :: cs => if startsWithName name cs then '<' :: '/' :: cs else skip name ('/' :: cs)
  | _::cs => skip name cs

inductive Mode where
  | plain
  | hidden
  | nested
  deriving DecidableEq, Repr

def scriptName : List Char := ['s', 'c', 'r', 'i', 'p', 't']

/-- Two dashes before a bracket end the hidden part. -/
def skipScript (name : List Char) : Mode → (dashes : Nat) → List Char → List Char
  | _, _, [] => []
  | .plain, _, '<' :: '!' :: '-' :: '-' :: cs => skipScript name .hidden 2 cs
  | .nested, _, '<' :: cs =>
    let mode := if cs.head? = some '/' ∧ startsWithName scriptName cs.tail then Mode.hidden else Mode.nested
    skipScript name mode 0 cs
  | m, _, '<' :: cs =>
    if cs.head? = some '/' ∧ startsWithName name cs.tail then '<' :: cs
    else if m = .hidden ∧ startsWithName scriptName cs then skipScript name .nested 0 cs
    else skipScript name m 0 cs
  | m, dashes, c::cs =>
    if m = .plain then skipScript name .plain 0 cs
    else if c = '-' then skipScript name m (dashes + 1) cs
    else if c = '>' ∧ 2 ≤ dashes then skipScript name .plain 0 cs
    else skipScript name m 0 cs

def rest (t : TextType) (name cs : List Char) : List Char :=
  match t with
  | .raw => skip name cs
  | .script => skipScript name .plain 0 cs
  | .endless => []

end RawText

end SlideDirectives.Html
