import SlideDirectives.Yaml.Outline

/-!
# Pages

A page is a body of fields, one behind the other: a key, a colon, and any plain
or quoted scalar or none. A scalar may go on over further lines if they are
indented and do not start like a comment. A comment may stand behind a scalar of
one line only. Blank lines and lines of comments stand anywhere, and all lines
end in the same way.
-/

set_option autoImplicit false

namespace SlideDirectives.Yaml

def Quoted.Quote.style : Quoted.Quote → ScalarStyle
  | single => .singleQuoted
  | double => .doubleQuoted

namespace Page

open Text

def isKeyStart (c : Char) : Bool :=
  c.isAlpha || c == '_' || c == '$'

def isKeyChar (c : Char) : Bool :=
  c.isAlphanum || c == '_'

def isValueChar (c : Char) : Bool :=
  c.isAlphanum || c == '_' || c == '.' || c == '/' || c == '-'

def isGraphic (c : Char) : Bool :=
  0x20 ≤ c.toNat && c.toNat ≤ 0x7E

def isKey : List Char → Bool
  | [] => false
  | c::cs => isKeyStart c && cs.all isKeyChar

/-- Keys are not longer than a key that needs no mark of its own may be. -/
structure Key where
  chars : List Char
  wellFormed : isKey chars = true
  short : byteSize chars ≤ 1000

structure Note where
  text : List Char
  graphic : text.all isGraphic = true

def noteChars : Option Note → List Char
  | none => []
  | some n => ' ' :: '#' :: n.text

def hashChars : Option Note → List Char
  | none => []
  | some n => '#' :: n.text

inductive Newline where
  | lf
  | crlf

def Newline.chars : Newline → List Char
  | lf => ['\n']
  | crlf => ['\r', '\n']

def quote? (c : Char) : Option Quoted.Quote :=
  if c = '\x27' then some .single else if c = '\x22' then some .double else none

def opensPlain : List Char → Bool
  | [] => false
  | c::cs =>
    (!(isSpacing c || isIndicator c) || ("-?:".toList.contains c && !atSpacing cs))
      && !isDocumentMarker (c::cs) && c != byteOrderMark

/-- The text and the style of the scalar that is all of a text. -/
def spelled? : List Char → Option (List Char × ScalarStyle)
  | [] => none
  | c::cs =>
    match quote? c with
    | some q =>
      (Quoted.scan? q (Cursor.start (c::cs))).bind fun r =>
        if r.2.rest.isEmpty then some (r.1, q.style) else none
    | none =>
      if opensPlain (c::cs) then
        (Plain.scan? ⟨false, 0⟩ (Cursor.start (c::cs))).bind fun r =>
          if r.after.rest.isEmpty then some (r.text, .plain) else none
      else none

def glued (newline : List Char) : List (List Char) → List Char
  | [] => []
  | l::ls => l ++ ls.flatMap (newline ++ ·)

def isInline (c : Char) : Bool :=
  isPrintable c && !isBreak c

/-- A line that a scalar goes on with is empty, or indented and no comment. -/
def goesOn (line : List Char) : Bool :=
  line.all isInline && line.head?.all (· == ' ') && (trimStart line).head?.all (· != '#')

theorem all_goesOn_nil : ([] : List (List Char)).all goesOn = true :=
  rfl

/-- A scalar on a line and on further ones, with what it is read as by itself. -/
structure Scalar where
  first : List Char
  later : List (List Char)
  text : List Char
  style : ScalarStyle
  value : Value
  spelled : spelled? (glued ['\n'] (first::later)) = some (text, style)
  resolved : Decode.scalarValue? none text style = some value
  inline : first.all isInline = true
  hanging : later.all goesOn = true
  ends : (glued ['\n'] (first::later)).getLast?.any (fun c => !isBlank c) = true

def Scalar.written (newline : List Char) (s : Scalar) : List Char :=
  glued newline (s.first :: s.later)

/-- A key with its value. `gap` counts the spaces before the value but for the
first, `spaces` those behind it but for the one that a note needs. -/
structure Field where
  key : Key
  gap : Nat
  value : Option Scalar
  spaces : Nat
  note : Option Note
  closed : value.any (fun s => !s.later.isEmpty) = true → spaces = 0 ∧ note = none

namespace Field

def tail (f : Field) : List Char :=
  List.replicate f.spaces ' ' ++ noteChars f.note

def lead (f : Field) : List Char :=
  f.key.chars ++ ':' :: List.replicate (f.gap + 1) ' '

def lines (f : Field) : List (List Char) :=
  match f.value with
  | none => [f.key.chars ++ ':' :: f.tail]
  | some s => (f.lead ++ (s.first ++ f.tail)) :: s.later

def chars (newline : List Char) (f : Field) : List Char :=
  glued newline f.lines

def entry (newline : List Char) (f : Field) : Entry :=
  let start := byteSize f.lead
  ⟨⟨0, byteSize f.key.chars⟩,
    f.value.map (fun s => ⟨start, start + byteSize (s.written newline)⟩),
    byteSize (trimEnd (f.chars newline))⟩

/-- The text that is reported for a value: the written one, unless it is a string. -/
def pair (newline : List Char) (f : Field) (e : Entry) : Pair :=
  ⟨⟨f.key.chars, e.key⟩,
    (f.value.bind fun s => e.value.map fun v =>
      ⟨Outline.valueText (s.written newline) s.value, v⟩)⟩

end Field

/-- A line of white space with or without a comment, or a field. -/
inductive Row where
  | fill (spaces : Nat) (note : Option Note)
  | field (f : Field)

namespace Row

def lines : Row → List (List Char)
  | fill n note => [List.replicate n ' ' ++ hashChars note]
  | field f => f.lines

def field? : Row → Option Field
  | fill _ _ => none
  | field f => some f

end Row

def joined (newline : List Char) (rows : List Row) : List Char :=
  glued newline (rows.flatMap Row.lines)

def placed (newline : List Char) : Nat → List Row → List (Field × Entry)
  | _, [] => []
  | start, r::rs =>
    r.field?.toList.map (fun f => (f, (f.entry newline).shift start)) ++
      placed newline (start + byteSize (glued newline r.lines ++ newline)) rs

end Page

structure Page where
  rows : List Page.Row
  newline : Page.Newline
  hasField : rows.any (·.field?.isSome) = true

namespace Page

def text (p : Page) : List Char :=
  joined p.newline.chars p.rows

def fields (p : Page) : List Field :=
  p.rows.filterMap Row.field?

/-- The pairs of the page, where they are written. -/
def pairs (p : Page) : List Pair :=
  (placed p.newline.chars 0 p.rows).map (fun x => x.1.pair p.newline.chars x.2)

end Page

end SlideDirectives.Yaml
