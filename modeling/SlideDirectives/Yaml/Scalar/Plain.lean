import SlideDirectives.Yaml.Cursor

/-!
# Plain scalars

Between two words of a flow scalar, spaces on one line are kept as they are. A
single line break becomes a space, and of several the first is dropped. A plain
scalar ends before a comment, before a colon that is followed by white space,
before a less indented line, before a document marker and, in a flow collection,
before a flow indicator.
-/

set_option autoImplicit false

namespace SlideDirectives.Yaml

/-- What was read since the last word. `blanks` is in reverse order. -/
structure Gap where
  blanks : List Char
  broken : Bool
  first : List Char
  later : List Char
  deriving DecidableEq, Repr

namespace Gap

def none : Gap := ⟨[], false, [], []⟩

def joined : Gap := ⟨[], true, [], []⟩

def isNone (g : Gap) : Bool :=
  g.blanks.isEmpty && !g.broken

def addBlank (g : Gap) (c : Char) : Gap :=
  if g.broken then g else { g with blanks := c::g.blanks }

def addBreak (g : Gap) (c : Char) : Gap :=
  if g.broken then { g with later := g.later ++ [breakText c] }
  else ⟨[], true, [breakText c], []⟩

def text (g : Gap) : List Char :=
  if g.broken then
    if g.first = ['\n'] then
      if g.later.isEmpty then [' '] else g.later
    else g.first ++ g.later
  else g.blanks.reverse

end Gap

end SlideDirectives.Yaml

namespace SlideDirectives.Yaml.Plain

structure Context where
  inFlow : Bool
  indent : Int

/-- A scalar, whether it was followed by a line break, and the text after it. -/
structure Result where
  text : List Char
  broken : Bool
  after : Cursor
  deriving DecidableEq, Repr

def endsWord (ctx : Context) : List Char → Bool
  | [] => true
  | c::cs => (c == ':' && atSpacing cs) || (ctx.inFlow && isFlowIndicator c)

/-- In a flow collection a colon before an indicator is refused. -/
def refused (ctx : Context) : List Char → Bool
  | ':' :: c::_ => ctx.inFlow && (isFlowIndicator c || c == '?')
  | _ => false

def endsScalar (ctx : Context) (m : Mark) (cs : List Char) : Bool :=
  (!ctx.inFlow && (m.column : Int) < ctx.indent)
    || (m.column == 0 && isDocumentMarker cs)
    || startsWith (· == '#') cs

/-- `acc` holds the text read so far in reverse order. -/
def go (ctx : Context) (m : Mark) (acc : List Char) (gap : Gap) : List Char → Option Result
  | [] => some ⟨acc.reverse, gap.broken, ⟨[], m⟩⟩
  | '\r' :: '\n' :: cs => go ctx (m.nextLine 2) acc (gap.addBreak '\n') cs
  | c::cs =>
    if isBreak c then go ctx (m.nextLine 1) acc (gap.addBreak c) cs
    else if Text.isGap c then
      if gap.broken && (m.column : Int) < ctx.indent && c == '\t' then none
      else go ctx m.next acc (gap.addBlank c) cs
    else if !gap.isNone && endsScalar ctx m (c::cs) then
      some ⟨acc.reverse, gap.broken, ⟨c::cs, m⟩⟩
    else if refused ctx (c::cs) then none
    else if endsWord ctx (c::cs) then some ⟨acc.reverse, gap.broken, ⟨c::cs, m⟩⟩
    else go ctx m.next (c :: (gap.text.reverse ++ acc)) Gap.none cs

def scan? (ctx : Context) (c : Cursor) : Option Result :=
  go ctx c.mark [] Gap.none c.rest

end SlideDirectives.Yaml.Plain
