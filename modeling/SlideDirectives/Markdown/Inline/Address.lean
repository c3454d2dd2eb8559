import SlideDirectives.Markdown.Reference
import SlideDirectives.Text.Punctuation

/-!
# Addresses

An address between brackets is a link, as is one that starts with a well-known
prefix. Marks at the end of such a literal address are left out of it. What
follows the address is returned.
-/

set_option autoImplicit false

namespace SlideDirectives.Markdown.Address

open Text

def isSchemeChar (c : Char) : Bool :=
  c.isAlphanum || c == '+' || c == '-' || c == '.'

def maxScheme : Nat := 32

def isUrlChar (c : Char) : Bool :=
  !(c.toNat ≤ 0x1F || c == ' ' || c == '<' || c == '>' || c.toNat == 0x7F)

def url? (cs : List Char) : Option (List Char) :=
  let scheme := cs.takeWhile isSchemeChar
  match cs.drop scheme.length with
  | ':' :: behind =>
    let rest := behind.dropWhile isUrlChar
    if cs.head?.any Char.isAlpha && 2 ≤ scheme.length && scheme.length ≤ maxScheme &&
      rest.head? == some '>' then some rest.tail else none
  | _ => none

def isMailChar (c : Char) : Bool :=
  c.isAlphanum || "#$%&\x27*+-./=?^_\x60\x7b|\x7d~".toList.contains c

def maxDomainLabel : Nat := 63

def mailDomain? : Nat → List Char → Option (List Char)
  | 0, _ => none
  | fuel + 1, cs =>
    let label := cs.takeWhile (fun c => c.isAlphanum || c == '-')
    let rest := cs.drop label.length
    if label.isEmpty || maxDomainLabel < label.length || label.head? == some '-' ||
      label.getLast? == some '-' then none
    else match rest with
      | '>' :: rest => some rest
      | '.' :: rest => mailDomain? fuel rest
      | _ => none

def mail? (cs : List Char) : Option (List Char) :=
  let user := cs.takeWhile isMailChar
  match cs.drop user.length with
  | '@' :: cs => if user.isEmpty then none else mailDomain? (cs.length + 1) cs
  | _ => none

def bracketed? (cs : List Char) : Option (List Char) :=
  (url? cs).or (mail? cs)

/-- Whether only marks that may end a sentence follow, up to the end of a word
or the start of a tag. -/
def isTrail : List Char → Bool
  | [] => true
  | '&' :: c :: cs => c.isAlpha && inName cs
  | ']' :: [] => true
  | ']' :: c :: cs => c == '(' || c == '[' || isBlank c || isTrail (c :: cs)
  | c :: cs =>
    if "!\x22\x27)*,.:;?_~".toList.contains c then isTrail cs
    else c == '<' || isBlank c
where
  inName : List Char → Bool
    | [] => false
    | ';' :: cs => isTrail cs
    | c :: cs => c.isAlpha && inName cs

/-- `opened` and `closed` count the parentheses so far; a closing one that has
an opening one before it belongs to the path. -/
def pathEnd (opened closed : Nat) : List Char → List Char
  | [] => []
  | c :: cs =>
    if c = '(' then pathEnd (opened + 1) closed cs
    else if c = ')' ∧ closed < opened then pathEnd opened (closed + 1) cs
    else if "!\x22&\x27)*,.:;<?]_~".toList.contains c && isTrail (c :: cs) then c :: cs
    else if isBlank c then c :: cs
    else pathEnd opened (if c = ')' then closed + 1 else closed) cs

/-- Where a domain ends. The last two of its labels may hold no underscore;
`last` and `before` tell of those so far. -/
def domainEnd? (seen last before : Bool) : List Char → Option (List Char)
  | [] => if seen && !last && !before then some [] else none
  | c :: cs =>
    let ended := if seen && !last && !before then some (c :: cs) else none
    if c = '.' ∨ c = '_' then
      if isTrail (c :: cs) then ended
      else if c = '_' then domainEnd? seen true before cs
      else domainEnd? seen false last cs
    else if c = '-' then domainEnd? seen last before cs
    else if CharClass.ofChar c = .word then domainEnd? true last before cs
    else ended

def domainAndPath? (cs : List Char) : Option (List Char) :=
  (domainEnd? false false false cs).map (pathEnd 0 0)

/-- An address with a scheme may not follow a letter. -/
def withScheme? (previous : Option Char) (cs : List Char) : Option (List Char) :=
  let name := cs.takeWhile Char.isAlpha
  let known := lower name == "http".toList || lower name == "https".toList
  let behind := cs.drop name.length
  if previous.any Char.isAlpha || !known || !("://".toList.isPrefixOf behind) then none
  else domainAndPath? (behind.drop 3)

def mayPrecede (c : Char) : Bool :=
  isSpacing c || "(*_[]~".toList.contains c

def withPrefix? (previous : Option Char) (cs : List Char) : Option (List Char) :=
  if previous.all mayPrecede && lower (cs.take 4) == "www.".toList && 4 < cs.length
  then domainAndPath? cs else none

def literal? (previous : Option Char) (cs : List Char) : Option (List Char) :=
  (withScheme? previous cs).or (withPrefix? previous cs)

end SlideDirectives.Markdown.Address
