import SlideDirectives.Text.Basic
import SlideDirectives.Text.Bytes

/-!
# Entries of a block mapping, by lines

A line that is not indented starts an entry if it holds a key and a colon.
Indented lines belong to the value of the entry above them. The spans found
here are byte offsets into the text as written.
-/

set_option autoImplicit false

namespace SlideDirectives.Yaml

open Text

structure Entry where
  key : Span
  value : Option Span
  stop : Nat
  deriving DecidableEq, Repr

namespace Entry

def shift (e : Entry) (n : Nat) : Entry :=
  ⟨e.key.shift n, e.value.map (·.shift n), e.stop + n⟩

def closeGo (q : Char) : List Char → Option (List Char)
  | [] => none
  | [c] => if c = q then some [c] else none
  | c::d::cs =>
    if (c = '\\' ∧ q = '\x22') ∨ (c = '\x27' ∧ q = '\x27' ∧ d = '\x27') then
      (closeGo q cs).map (fun r => c::d::r)
    else if c = q then some [c]
    else (closeGo q (d::cs)).map (c :: ·)

def quoted? : List Char → Option (List Char)
  | [] => none
  | q::cs => (closeGo q cs).map (q :: ·)

def closingQuote? (cs : List Char) : Option Nat :=
  (quoted? cs).map byteSize

def isQuote (c : Char) : Bool :=
  c == '\x27' || c == '\x22'

/-- What cannot start a key of an entry: an indicator of another construct. -/
def opensOther : List Char → Bool
  | [] => true
  | '-' :: cs => cs.isEmpty || (cs.head?.any isGap)
  | c::_ => "[\x7b?&*!|>%@\x60".toList.contains c

/-- The text before the first colon that a space, a tab or the end follows. -/
def plainKey? : List Char → Option (List Char)
  | [] => none
  | c::cs =>
    if c = ':' ∧ (cs.head?.all isGap) then some []
    else (plainKey? cs).map (c :: ·)

def writtenKey? (line : List Char) : Option (List Char) :=
  match line with
  | [] => none
  | c::_ => if isQuote c then quoted? line else if opensOther line then none else plainKey? line

/-- The text before a comment that white space sets off. -/
def beforeComment : Bool → List Char → List Char
  | _, [] => []
  | afterGap, c::cs => if afterGap && c == '#' then [] else c :: beforeComment (isGap c) cs

def inlineValue? (cs : List Char) : Option (List Char) :=
  match cs with
  | [] => none
  | c::_ =>
    if c = '#' then none
    else if isQuote c then some ((quoted? cs).getD cs)
    else some (trimEnd (beforeComment false cs))

def ofLine? (line : List Char) : Option Entry := do
  let written ← writtenKey? line
  let key := trimEnd written
  let afterKey := line.drop written.length
  let gap := afterKey.takeWhile isGap
  match afterKey.drop gap.length with
  | ':' :: rest =>
    if key.isEmpty then none
    else
      let valueGap := rest.takeWhile isGap
      let start := byteSize written + byteSize gap + 1 + byteSize valueGap
      let value := (inlineValue? (rest.drop valueGap.length)).map
        (fun v => ⟨start, start + byteSize v⟩)
      some ⟨⟨0, byteSize key⟩, value, byteSize (trimEnd line)⟩
  | _ => none

/-- Comments and document markers. -/
def isStructural (line : List Char) : Bool :=
  ['#'].isPrefixOf line || "---".toList.isPrefixOf line || "...".toList.isPrefixOf line

def isBlockValue (source : List Char) (e : Entry) : Bool :=
  match e.value with
  | none => false
  | some v => (slice source v).head?.any (fun c => c == '|' || c == '>')

/-- The value grows to the end of an indented line, unless that is a comment. -/
def extend (source line : List Char) (start : Nat) (e : Entry) : Entry :=
  let words := trimStart line
  if isBlockValue source e || words.head? != some '#' then
    let stop := start + byteSize (trimEnd line)
    let valueStart := (e.value.map (·.start)).getD (start + (byteSize line - byteSize words))
    { e with value := some ⟨valueStart, stop⟩, stop := stop }
  else e

/-- `found` is in reverse order. -/
def scanGo (source : List Char) : Nat → List Entry → List Line → List Entry
  | _, found, [] => found.reverse
  | start, found, l::ls =>
    let line := dropEndWhile (· == '\r') l.content
    let found :=
      if (trim line).isEmpty then found
      else if line.head?.any isGap then
        match found with
        | [] => []
        | e::es => extend source line start e :: es
      else if isStructural line then found
      else match ofLine? line with
        | none => found
        | some e => e.shift start :: found
    scanGo source (start + l.size) found ls

end Entry

def entries (source : List Char) : List Entry :=
  Entry.scanGo source 0 [] (lines source)

end SlideDirectives.Yaml
