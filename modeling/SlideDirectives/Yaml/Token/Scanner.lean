import SlideDirectives.Yaml.Cursor
import SlideDirectives.Yaml.Scalar.Block
import SlideDirectives.Yaml.Scalar.Plain
import SlideDirectives.Yaml.Scalar.Quoted
import SlideDirectives.Yaml.Tag

/-!
# From text to tokens

A mapping key is recognised only when the colon after it is reached, so the
token that announces it is put in front of tokens that were already found.
Such a key has to stay on one line and within 1024 characters.
-/

set_option autoImplicit false

namespace SlideDirectives.Yaml

/-- A place where an implicit key may have started: the number of tokens
before it, and whether the indentation demands a key there. -/
structure KeyStart where
  number : Nat
  mark : Mark
  required : Bool
  deriving DecidableEq, Repr

/-- The state between two tokens. `found` is in reverse order; `keys` has one
entry for each open flow collection and one for the block around them. -/
structure Scanner where
  cursor : Cursor
  found : List Token
  indent : Int
  outer : List Int
  keyAllowed : Bool
  key : Option KeyStart
  outerKeys : List (Option KeyStart)
  deriving DecidableEq, Repr

namespace Scanner

def start (text : List Char) : Scanner :=
  ⟨Cursor.start text, [], -1, [], true, none, []⟩

def inFlow (s : Scanner) : Bool :=
  !s.outerKeys.isEmpty

def emit (s : Scanner) (t : Token) : Scanner :=
  { s with found := t :: s.found }

def insertAt (s : Scanner) (number : Nat) (t : Token) : Scanner :=
  let later := s.found.length - number
  { s with found := s.found.take later ++ t :: s.found.drop later }

/-- A key that started on an earlier line or too long ago is given up. -/
def expires (m : Mark) (k : KeyStart) : Bool :=
  k.mark.line < m.line || k.mark.index + 1024 < m.index

def expire? (m : Mark) : Option KeyStart → Option (Option KeyStart)
  | none => some none
  | some k => if expires m k then (if k.required then none else some none) else some (some k)

def expireKeys? (s : Scanner) : Option Scanner := do
  let key ← expire? s.cursor.mark s.key
  let outerKeys ← s.outerKeys.mapM (expire? s.cursor.mark)
  some { s with key := key, outerKeys := outerKeys }

def dropKey? (s : Scanner) : Option Scanner :=
  match s.key with
  | some ⟨_, _, true⟩ => none
  | _ => some { s with key := none }

def saveKey? (s : Scanner) : Option Scanner :=
  if s.keyAllowed then do
    let required := !s.inFlow && s.indent == (s.cursor.mark.column : Int)
    let s ← s.dropKey?
    some { s with key := some ⟨s.found.length, s.cursor.mark, required⟩ }
  else some s

def unrollGo (column : Int) : Int → List Int → List Token → Int × List Int × List Token
  | indent, [], found => (indent, [], found)
  | indent, i::outer, found =>
    if column < indent then unrollGo column i outer (.blockEnd :: found)
    else (indent, i::outer, found)

def unroll (s : Scanner) (column : Int) : Scanner :=
  if s.inFlow then s
  else
    let (indent, outer, found) := unrollGo column s.indent s.outer s.found
    { s with indent := indent, outer := outer, found := found }

/-- A block collection is opened if `column` is further in; its token goes
before the given token. -/
def roll (s : Scanner) (column : Nat) (number : Nat) (t : Token) : Scanner :=
  if !s.inFlow && s.indent < (column : Int) then
    { s with indent := column, outer := s.indent :: s.outer }.insertAt number t
  else s

def rollHere (s : Scanner) (t : Token) : Scanner :=
  s.roll s.cursor.mark.column s.found.length t

def allowKey (s : Scanner) (allowed : Bool) : Scanner :=
  { s with keyAllowed := allowed }

def move (s : Scanner) (c : Cursor) : Scanner :=
  { s with cursor := c }

/-- White space, comments and line breaks before a token. Tabs may not
indent a line where a key could start. -/
def skipGo (inFlow : Bool) : Nat → Bool → Cursor → Bool × Cursor
  | 0, allowed, c => (allowed, c)
  | fuel + 1, allowed, c =>
    let c := c.skipWhile (fun x => x == ' ' || ((inFlow || !allowed) && x == '\t'))
    let c := c.skipComment
    if startsWith isBreak c.rest then skipGo inFlow fuel (allowed || !inFlow) c.skipBreak
    else (allowed, c)

def skipToToken (s : Scanner) : Scanner :=
  let c := s.cursor
  let c := if c.mark.index == 0 && startsWith (· == byteOrderMark) c.rest then c.skip else c
  let (allowed, c) := skipGo s.inFlow (c.rest.length + 1) s.keyAllowed c
  { s with keyAllowed := allowed, cursor := c }

def endStream? (s : Scanner) : Option Scanner := do
  let s := s.unroll (-1)
  let s ← s.dropKey?
  some ((s.allowKey false).emit .streamEnd)

def directive? (s : Scanner) : Option Scanner := do
  let s := s.unroll (-1)
  let s ← s.dropKey?
  let (token, c) ← Directive.scan? s.cursor
  some ((s.allowKey false).move c |>.emit token)

def documentMarker? (s : Scanner) (token : Token) : Option Scanner := do
  let s := s.unroll (-1)
  let s ← s.dropKey?
  some ((s.allowKey false).move (s.cursor.skipN 3) |>.emit token)

def openFlow? (s : Scanner) (token : Token) : Option Scanner := do
  let s ← s.saveKey?
  some ({ s with key := none, outerKeys := s.key :: s.outerKeys, keyAllowed := true }.move
    s.cursor.skip |>.emit token)

def closeFlow? (s : Scanner) (token : Token) : Option Scanner := do
  let s ← s.dropKey?
  let s :=
    match s.outerKeys with
    | [] => s
    | k::ks => { s with key := k, outerKeys := ks }
  some ((s.allowKey false).move s.cursor.skip |>.emit token)

def flowEntry? (s : Scanner) : Option Scanner := do
  let s ← s.dropKey?
  some ((s.allowKey true).move s.cursor.skip |>.emit .flowEntry)

def blockEntry? (s : Scanner) : Option Scanner := do
  if !s.inFlow && !s.keyAllowed then none
  else
    let s ← (s.rollHere .blockSequenceStart).dropKey?
    some ((s.allowKey true).move s.cursor.skip |>.emit .blockEntry)

def explicitKey? (s : Scanner) : Option Scanner := do
  if !s.inFlow && !s.keyAllowed then none
  else
    let s ← (s.rollHere .blockMappingStart).dropKey?
    some ((s.allowKey (!s.inFlow)).move s.cursor.skip |>.emit .key)

/-- A colon ends an implicit key if one may have started. -/
def value? (s : Scanner) : Option Scanner :=
  match s.key with
  | some k =>
    let s := (s.insertAt k.number .key).roll k.mark.column k.number .blockMappingStart
    some ({ s with key := none, keyAllowed := false }.move s.cursor.skip |>.emit .value)
  | none =>
    if !s.inFlow && !s.keyAllowed then none
    else
      let s := s.rollHere .blockMappingStart
      some ((s.allowKey (!s.inFlow)).move s.cursor.skip |>.emit .value)

def named? (s : Scanner) (token : List Char → Token) : Option Scanner := do
  let s ← s.saveKey?
  let (name, c) ← anchorName? s.cursor
  some ((s.allowKey false).move c |>.emit (token name))

def tag? (s : Scanner) : Option Scanner := do
  let s ← s.saveKey?
  let (token, c) ← Tag.scan? s.inFlow s.cursor
  some ((s.allowKey false).move c |>.emit token)

def blockScalar? (s : Scanner) (folded : Bool) : Option Scanner := do
  let s ← s.dropKey?
  let (text, c) ← Block.scan? folded s.indent s.cursor
  let style := if folded then ScalarStyle.folded else ScalarStyle.literal
  some ((s.allowKey true).move c |>.emit (.scalar text style))

def quoted? (s : Scanner) (q : Quoted.Quote) : Option Scanner := do
  let s ← s.saveKey?
  let (text, c) ← Quoted.scan? q s.cursor
  let style := if q = .single then ScalarStyle.singleQuoted else ScalarStyle.doubleQuoted
  some ((s.allowKey false).move c |>.emit (.scalar text style))

def plain? (s : Scanner) : Option Scanner := do
  let s ← s.saveKey?
  let r ← Plain.scan? ⟨s.inFlow, s.indent + 1⟩ s.cursor
  some ((s.allowKey r.broken).move r.after |>.emit (.scalar r.text .plain))

/-- A plain scalar may open with a dash, or in a block with a question mark or
a colon, as long as no white space follows. -/
def startsPlain (inFlow : Bool) : List Char → Bool
  | [] => false
  | c::cs =>
    !(isSpacing c || isIndicator c)
      || (c == '-' && !startsWith Text.isGap cs)
      || (!inFlow && (c == '?' || c == ':') && !atSpacing cs)

def token? (s : Scanner) : Option Scanner :=
  match s.cursor.rest with
  | [] => s.endStream?
  | c::cs =>
    let opensLine := s.cursor.mark.column == 0
    if opensLine && c == '%' then s.directive?
    else if opensLine && isThrice '-' (c::cs) then s.documentMarker? .documentStart
    else if opensLine && isThrice '.' (c::cs) then s.documentMarker? .documentEnd
    else if c == '[' then s.openFlow? .flowSequenceStart
    else if c == '{' then s.openFlow? .flowMappingStart
    else if c == ']' then s.closeFlow? .flowSequenceEnd
    else if c == '}' then s.closeFlow? .flowMappingEnd
    else if c == ',' then s.flowEntry?
    else if c == '-' && atSpacing cs then s.blockEntry?
    else if c == '?' && (s.inFlow || atSpacing cs) then s.explicitKey?
    else if c == ':' && (s.inFlow || atSpacing cs) then s.value?
    else if c == '*' then s.named? .alias
    else if c == '&' then s.named? .anchor
    else if c == '!' then s.tag?
    else if c == '|' && !s.inFlow then s.blockScalar? false
    else if c == '>' && !s.inFlow then s.blockScalar? true
    else if c == '\x27' then s.quoted? .single
    else if c == '\x22' then s.quoted? .double
    else if startsPlain s.inFlow (c::cs) then s.plain?
    else none

/-- What lies before the next token is passed first. -/
def step? (s : Scanner) : Option Scanner := do
  let s ← s.skipToToken.expireKeys?
  (s.unroll s.cursor.mark.column).token?

/-- How many tokens can be read while the open keys are undecided. -/
def readable (s : Scanner) : Nat :=
  (s.key :: s.outerKeys).foldl
    (fun n k => match k with
      | some k => min n k.number
      | none => n)
    s.found.length

end Scanner

/-- The tokens of a text, and whether a fault cuts them short. -/
structure TokenStream where
  tokens : List Token
  faulty : Bool
  deriving DecidableEq, Repr

namespace TokenStream

/-- `known` is how many tokens could be read before the last one was found. -/
def scanGo : Nat → Nat → Scanner → TokenStream
  | 0, known, s => ⟨s.found.reverse.take known, true⟩
  | fuel + 1, known, s =>
    match s.expireKeys? with
    | none => ⟨s.found.reverse.take known, true⟩
    | some s =>
      match s.step? with
      | none => ⟨s.found.reverse.take s.readable, true⟩
      | some next =>
        if next.found.head? = some .streamEnd then ⟨next.found.reverse, false⟩
        else scanGo fuel s.readable next

/-- A text with a character that is not printable has no tokens at all. -/
def ofText (text : List Char) : TokenStream :=
  if text.all isPrintable then scanGo (text.length + 1) 0 (Scanner.start text)
  else ⟨[], true⟩

end TokenStream

end SlideDirectives.Yaml
