import SlideDirectives.Markdown.Reference

/-!
# HTML within a line

A tag, a comment, an instruction, a declaration or a character data section may
stand within text. Each is read behind its opening bracket, and what follows
it is returned.
-/

set_option autoImplicit false

namespace SlideDirectives.Markdown.Tag

def after? (text : List Char) : List Char → Option (List Char)
  | [] => none
  | c :: cs =>
    if text.isPrefixOf (c :: cs) then some ((c :: cs).drop text.length) else after? text cs

/-- The dashes that open a comment may be part of its end. -/
def comment? (cs : List Char) : Option (List Char) :=
  match cs with
  | '>' :: cs => some cs
  | '-' :: '>' :: cs => some cs
  | cs => after? "-->".toList cs

def isNameChar (c : Char) : Bool :=
  c.isAlphanum || c == '-'

def isAttributeStart (c : Char) : Bool :=
  c.isAlpha || c == ':' || c == '_'

def isAttributeChar (c : Char) : Bool :=
  c.isAlphanum || c == ':' || c == '_' || c == '-' || c == '.'

def isUnquoted (c : Char) : Bool :=
  !(isSpacing c || c == '/' || c == '>')

def isNoValue (c : Char) : Bool :=
  "\x22\x27<=\x60".toList.contains c

def bracket? (cs : List Char) : Option (List Char) :=
  match cs with
  | '>' :: cs => some cs
  | _ => none

def quoted? (quote : Char) (cs : List Char) : Option (List Char) :=
  let behind := (cs.dropWhile (· != quote)).drop 1
  if cs.contains quote && behind.head?.any (fun c => isSpacing c || c == '/' || c == '>')
  then some behind else none

def value? (cs : List Char) : Option (List Char) :=
  match cs.dropWhile isSpacing with
  | '\x22' :: cs => quoted? '\x22' cs
  | '\x27' :: cs => quoted? '\x27' cs
  | c :: cs =>
    let value := cs.takeWhile isUnquoted
    let rest := cs.drop value.length
    if isNoValue c || c == '>' || value.any isNoValue || rest.isEmpty then none else some rest
  | [] => none

def attributes? : Nat → List Char → Option (List Char)
  | 0, _ => none
  | fuel + 1, cs =>
    match cs.dropWhile isSpacing with
    | '/' :: cs => bracket? cs
    | c :: cs =>
      if isAttributeStart c then
        let behind := cs.dropWhile isAttributeChar
        match behind.dropWhile isSpacing with
        | '=' :: cs => do attributes? fuel (← value? cs)
        | _ => attributes? fuel behind
      else bracket? (c :: cs)
    | [] => none

def startTag? (cs : List Char) : Option (List Char) :=
  let behind := cs.dropWhile isNameChar
  if behind.head?.any (fun c => isSpacing c || c == '/' || c == '>')
  then attributes? (cs.length + 1) behind else none

def endTag? (cs : List Char) : Option (List Char) :=
  if cs.head?.any Char.isAlpha then bracket? ((cs.dropWhile isNameChar).dropWhile isSpacing)
  else none

def read? (cs : List Char) : Option (List Char) :=
  match cs with
  | '!' :: '-' :: '-' :: cs => comment? cs
  | '!' :: cs =>
    if "[CDATA[".toList.isPrefixOf cs then after? "]]>".toList (cs.drop 7)
    else if cs.head?.any Char.isAlpha then after? ['>'] cs
    else none
  | '?' :: cs => after? "?>".toList cs
  | '/' :: cs => endTag? cs
  | c :: cs => if c.isAlpha then startTag? (c :: cs) else none
  | [] => none

end SlideDirectives.Markdown.Tag
