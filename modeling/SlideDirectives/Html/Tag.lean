import SlideDirectives.Text.Basic

/-!
# Tags

A tag has a name and attributes. Names are compared without the case of ASCII
letters. A bracket in a quoted value does not end a tag. A tag that the end of
the text cuts off is no tag.
-/

set_option autoImplicit false

namespace SlideDirectives.Html

def isSpace (c : Char) : Bool :=
  c == ' ' || c == '\n' || c == '\r' || c == '\t' || c == '\x0c'

def endsName (c : Char) : Bool :=
  isSpace c || c == '/' || c == '>'

def startsWithName (name : List Char) (cs : List Char) : Bool :=
  Text.lower (cs.take name.length) == name && (cs.drop name.length).head?.any endsName

structure Attribute where
  name : List Char
  value : List Char
  deriving DecidableEq, Repr

structure Tag where
  name : List Char
  attributes : List Attribute
  selfClosing : Bool
  deriving DecidableEq, Repr

namespace Tag

inductive Mode where
  | tagName
  | beforeName
  | name
  | afterName
  | beforeValue
  | quoted (q : Char)
  | bare
  | slash
  deriving DecidableEq, Repr

/-- The tag being read; its texts are in reverse order. -/
structure Draft where
  tagName : List Char
  done : List Attribute
  name : List Char
  value : List Char
  deriving Repr

namespace Draft

def push (d : Draft) : Draft :=
  if d.name.isEmpty then d
  else { d with
    done := ⟨Text.lower d.name.reverse, d.value.reverse⟩ :: d.done
    name := []
    value := [] }

def finish (d : Draft) (selfClosing : Bool) : Tag :=
  ⟨Text.lower d.tagName.reverse, d.push.done.reverse, selfClosing⟩

def openName (d : Draft) (c : Char) : Draft :=
  { d.push with name := [c] }

end Draft

def between (d : Draft) (c : Char) : Mode × Draft :=
  if isSpace c then (.beforeName, d)
  else if c == '/' then (.slash, d)
  else (.name, d.openName c)

def next (m : Mode) (d : Draft) (c : Char) : Mode × Draft :=
  match m with
  | .tagName =>
    if isSpace c then (.beforeName, d)
    else if c == '/' then (.slash, d)
    else (.tagName, { d with tagName := c :: d.tagName })
  | .beforeName => between d c
  | .slash => between d c
  | .name =>
    if isSpace c then (.afterName, d)
    else if c == '/' then (.slash, d)
    else if c == '=' then (.beforeValue, d)
    else (.name, { d with name := c :: d.name })
  | .afterName =>
    if isSpace c then (.afterName, d)
    else if c == '=' then (.beforeValue, d)
    else between d c
  | .beforeValue =>
    if isSpace c then (.beforeValue, d)
    else if c == '\x22' || c == '\x27' then (.quoted c, d)
    else (.bare, { d with value := [c] })
  | .quoted q =>
    if c == q then (.beforeName, d) else (.quoted q, { d with value := c :: d.value })
  | .bare =>
    if isSpace c then (.beforeName, d) else (.bare, { d with value := c :: d.value })

def isQuoted : Mode → Bool
  | .quoted _ => true
  | _ => false

def go (m : Mode) (d : Draft) : List Char → Option (Tag × List Char)
  | [] => none
  | c::cs =>
    if c = '>' ∧ !isQuoted m then some (d.finish (m == .slash), cs)
    else
      let (m, d) := next m d c
      go m d cs

def ofText? (cs : List Char) : Option (Tag × List Char) :=
  go .tagName ⟨[], [], [], []⟩ cs

end Tag

end SlideDirectives.Html
