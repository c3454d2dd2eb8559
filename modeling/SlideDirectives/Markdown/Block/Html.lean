import SlideDirectives.Text.Basic

/-!
# HTML blocks

An HTML block is opened by the start of a line and has one of seven kinds. Five
kinds end with the line that has their closing text; the other two end before
the first blank line.
-/

set_option autoImplicit false

namespace SlideDirectives.Markdown

inductive HtmlKind where
  | raw
  | comment
  | instruction
  | declaration
  | cdata
  | basic
  | complete
  deriving DecidableEq, Repr

namespace HtmlKind

open Text

def rawNames : List (List Char) :=
  ["pre", "script", "style", "textarea"].map String.toList

def blockNames : List (List Char) :=
  ["address", "article", "aside", "base", "basefont", "blockquote", "body", "caption", "center",
    "col", "colgroup", "dd", "details", "dialog", "dir", "div", "dl", "dt", "fieldset",
    "figcaption", "figure", "footer", "form", "frame", "frameset", "h1", "h2", "h3", "h4", "h5",
    "h6", "head", "header", "hr", "html", "iframe", "legend", "li", "link", "main", "menu",
    "menuitem", "nav", "noframes", "ol", "optgroup", "option", "p", "param", "search", "section",
    "summary", "table", "tbody", "td", "tfoot", "th", "thead", "title", "tr", "track",
    "ul"].map String.toList

def cdataName : List Char := "[CDATA[".toList

def endsAtBlank (k : HtmlKind) : Bool :=
  k == .basic || k == .complete

def isRawEnd (cs : List Char) : Bool :=
  match cs with
  | '<' :: '/' :: cs =>
    let name := cs.takeWhile Char.isAlpha
    rawNames.contains (lower name) && (cs.drop name.length).head? == some '>'
  | _ => false

def closesRaw : List Char → Bool
  | [] => false
  | c :: cs => isRawEnd (c :: cs) || closesRaw cs

/-- Brackets are read two at a time, so a third one hides the end. -/
def closesCdata : List Char → Bool
  | [] => false
  | ']' :: ']' :: '>' :: _ => true
  | ']' :: ']' :: cs => closesCdata cs
  | _ :: cs => closesCdata cs

def closes (k : HtmlKind) (cs : List Char) : Bool :=
  match k with
  | .raw => closesRaw cs
  | .comment => contains "-->".toList cs
  | .instruction => contains "?>".toList cs
  | .declaration => cs.contains '>'
  | .cdata => closesCdata cs
  | .basic | .complete => false

/-- Whether the text behind the opening closes the block on the same line. A
comment may close with dashes of its opening. -/
def closesOpening (k : HtmlKind) (cs : List Char) : Bool :=
  let early := match k with
    | .comment => (cs.dropWhile (· == '-')).head? == some '>'
    | .instruction => cs.head? == some '>'
    | _ => false
  early || closes k cs

namespace Complete

def isNameStart (c : Char) : Bool :=
  c.isAlpha || c == ':' || c == '_'

def isNameRest (c : Char) : Bool :=
  c.isAlphanum || c == '-' || c == '.' || c == ':' || c == '_'

def isUnquoted (c : Char) : Bool :=
  !(isGap c || "\x22\x27/<=>\x60".toList.contains c)

def afterQuoted? (quote : Char) (cs : List Char) : Option (List Char) :=
  let rest := cs.dropWhile (· != quote)
  let behind := rest.drop 1
  if rest.isEmpty then none
  else if behind.head?.any (fun c => c == '/' || c == '>' || isGap c) then some behind
  else none

def afterValue? (cs : List Char) : Option (Bool × List Char) :=
  match cs.dropWhile isGap with
  | [] => none
  | '\x22' :: cs => (afterQuoted? '\x22' cs).map (true, ·)
  | '\x27' :: cs => (afterQuoted? '\x27' cs).map (true, ·)
  | c :: cs =>
    if "<=>\x60".toList.contains c then none
    else some (false, (c :: cs).dropWhile isUnquoted)

/-- Reads from behind the name of an attribute; an unquoted value may be
followed by another one. -/
def afterName? : Nat → List Char → Option (List Char)
  | 0, _ => none
  | fuel + 1, cs =>
    match cs.dropWhile isGap with
    | '=' :: cs => do
      let (quoted, rest) ← afterValue? cs
      if quoted then some rest else afterName? fuel rest
    | _ => some cs

def attributes? : Nat → List Char → Option (List Char)
  | 0, _ => none
  | fuel + 1, cs =>
    match cs.dropWhile isGap with
    | '/' :: '>' :: cs => some cs
    | '>' :: cs => some cs
    | c :: cs =>
      if isNameStart c then do
        let rest ← afterName? (cs.length + 1) (cs.dropWhile isNameRest)
        attributes? fuel rest
      else none
    | [] => none

def fillsLine (closing : Bool) (cs : List Char) : Bool :=
  let rest := if closing then
      match cs.dropWhile isGap with
      | '>' :: cs => some cs
      | _ => none
    else attributes? (cs.length + 1) cs
  rest.any (·.all isGap)

end Complete

def isNameChar (c : Char) : Bool :=
  c.isAlphanum || c == '-'

def ofTag? (closing interrupts : Bool) (cs : List Char) : Option HtmlKind :=
  let name := lower (cs.takeWhile isNameChar)
  let rest := cs.dropWhile isNameChar
  if !(rest.head?.all (fun c => c == '/' || c == '>' || isGap c)) then none
  else if !closing && rest.head? != some '/' && rawNames.contains name then some .raw
  else if blockNames.contains name then
    if rest.head? == some '/' && rest.tail.head? != some '>' then none else some .basic
  else if interrupts then none
  else if Complete.fillsLine closing rest then some .complete
  else none

def ofLine? (interrupts : Bool) (cs : List Char) : Option (HtmlKind × List Char) :=
  match cs with
  | '<' :: '!' :: '-' :: '-' :: cs => some (.comment, cs)
  | '<' :: '!' :: cs =>
    if cdataName.isPrefixOf cs then some (.cdata, cs.drop cdataName.length)
    else if cs.head?.any Char.isAlpha then some (.declaration, cs.tail)
    else none
  | '<' :: '?' :: cs => some (.instruction, cs)
  | '<' :: '/' :: cs =>
    if cs.head?.any Char.isAlpha then (ofTag? true interrupts cs).map (·, cs) else none
  | '<' :: cs =>
    if cs.head?.any Char.isAlpha then (ofTag? false interrupts cs).map (·, cs) else none
  | _ => none

end HtmlKind

end SlideDirectives.Markdown
