import SlideDirectives.Yaml.Cursor

/-!
# Tags, anchors and directives

Tags are written in full between angle brackets, or as a handle and a suffix.
Percent escapes in them spell the bytes of UTF-8 characters.
-/

set_option autoImplicit false

namespace SlideDirectives.Yaml

def anchorName? (c : Cursor) : Option (List Char × Cursor) :=
  let (name, c) := c.skip.span isWord
  let ends := atSpacing c.rest || startsWith ("?:,]\x7d%@\x60".toList.contains ·) c.rest
  if !name.isEmpty && ends then some (name, c) else none

namespace Tag

def isUriMark (c : Char) : Bool :=
  ";/?:@&=+$.%!~*\x27()".toList.contains c

def isUri (verbatim : Bool) (c : Char) : Bool :=
  isWord c || isUriMark c || (verbatim && (c == ',' || c == '[' || c == ']'))

def octet? (c : Cursor) : Option (Nat × Cursor) :=
  match c.rest with
  | '%' :: a::b::_ => do
    let high ← hexDigit? a
    let low ← hexDigit? b
    some (high * 16 + low, c.skipN 3)
  | _ => none

def leadOctet? (n : Nat) : Option (Nat × Nat) :=
  if n < 0x80 then some (0, n)
  else if 0xC0 ≤ n ∧ n < 0xE0 then some (1, n - 0xC0)
  else if 0xE0 ≤ n ∧ n < 0xF0 then some (2, n - 0xE0)
  else if 0xF0 ≤ n ∧ n < 0xF8 then some (3, n - 0xF0)
  else none

def trailOctets? : Nat → Nat → Cursor → Option (Nat × Cursor)
  | 0, value, c => some (value, c)
  | count + 1, value, c => do
    let (octet, c) ← octet? c
    if 0x80 ≤ octet ∧ octet < 0xC0 then trailOctets? count (value * 64 + (octet - 0x80)) c
    else none

def escaped? (c : Cursor) : Option (Char × Cursor) := do
  let (octet, c) ← octet? c
  let (count, value) ← leadOctet? octet
  let (value, c) ← trailOctets? count value c
  some (Char.ofNat value, c)

def uriGo (verbatim : Bool) : Nat → Cursor → Option (List Char × Cursor)
  | 0, c => some ([], c)
  | fuel + 1, c =>
    match c.rest with
    | [] => some ([], c)
    | x::_ =>
      if !isUri verbatim x then some ([], c)
      else do
        let (x, c) ← if x == '%' then escaped? c else some (x, c.skip)
        let (word, c) ← uriGo verbatim fuel c
        some (x::word, c)

/-- Nothing is refused here; an empty result may still be. -/
def uri? (verbatim : Bool) (c : Cursor) : Option (List Char × Cursor) :=
  uriGo verbatim c.rest.length c

def handle? (inDirective : Bool) (c : Cursor) : Option (List Char × Cursor) :=
  if !startsWith (· == '!') c.rest then none
  else
    let (name, c) := c.skip.span isWord
    if startsWith (· == '!') c.rest then some ('!' :: name ++ ['!'], c.skip)
    else if inDirective && !name.isEmpty then none
    else some ('!' :: name, c)

def isHandle (h : List Char) : Bool :=
  2 ≤ h.length && h.getLast? == some '!'

def shorthand? (c : Cursor) : Option (Token × Cursor) := do
  let (handle, c) ← handle? false c
  if isHandle handle then
    let (suffix, c) ← uri? false c
    if suffix.isEmpty then none else some (.tag handle suffix, c)
  else
    let (more, c) ← uri? false c
    let suffix := handle.tail ++ more
    some (if suffix.isEmpty then .tag [] ['!'] else .tag ['!'] suffix, c)

def verbatim? (c : Cursor) : Option (Token × Cursor) := do
  let (suffix, c) ← uri? true (c.skipN 2)
  if !suffix.isEmpty && startsWith (· == '>') c.rest then some (.tag [] suffix, c.skip) else none

def scan? (inFlow : Bool) (c : Cursor) : Option (Token × Cursor) := do
  let (tag, c) ← if startsWith (· == '<') c.rest.tail then verbatim? c else shorthand? c
  if atSpacing c.rest || (inFlow && startsWith (· == ',') c.rest) then some (tag, c) else none

end Tag

namespace Directive

def number? (c : Cursor) : Option (Nat × Cursor) :=
  let (digits, c) := c.span Char.isDigit
  if digits.isEmpty || 9 < digits.length then none
  else some (digits.foldl (fun n d => n * 10 + (d.toNat - '0'.toNat)) 0, c)

def version? (c : Cursor) : Option (Token × Cursor) := do
  let (major, c) ← number? (c.skipWhile Text.isGap)
  if !startsWith (· == '.') c.rest then none
  else
    let (minor, c) ← number? c.skip
    some (.versionDirective major minor, c)

def tag? (c : Cursor) : Option (Token × Cursor) := do
  let (handle, c) ← Tag.handle? true (c.skipWhile Text.isGap)
  if !startsWith Text.isGap c.rest then none
  else
    let (expansion, c) ← Tag.uri? true (c.skipWhile Text.isGap)
    if !expansion.isEmpty && atSpacing c.rest then some (.tagDirective handle expansion, c) else none

def scan? (c : Cursor) : Option (Token × Cursor) := do
  let (name, c) := c.skip.span isWord
  if name.isEmpty || !atSpacing c.rest then none
  else
    let (token, c) ←
      if name = "YAML".toList then version? c
      else if name = "TAG".toList then tag? c
      else none
    let c ← c.finishLine?
    some (token, c)

end Directive

end SlideDirectives.Yaml
