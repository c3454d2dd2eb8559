import SlideDirectives.Html.Token

/-!
# Comments with their places

Comments are reported by their text. Each text is looked for after the place
of the one before, as the content of the next comment opening that it matches;
carriage returns in the fragment may be missing from the text.
-/

set_option autoImplicit false

namespace SlideDirectives.Html

open Text

structure Comment where
  span : Span
  content : Span
  deriving DecidableEq, Repr

def commentOpening : List Char := ['<', '!', '-', '-']

namespace Comment

def matchSize? : (text cs : List Char) → Option Nat
  | [], _ => some 0
  | _::_, [] => none
  | t::ts, c::cs =>
    if t = c then (matchSize? ts cs).map (· + c.utf8Size)
    else if c = '\r' then (matchSize? (t::ts) cs).map (· + 1)
    else none

def closingSize (isEmpty : Bool) (cs : List Char) : Nat :=
  if "-->".toList.isPrefixOf cs then 3
  else if "--!>".toList.isPrefixOf cs then 4
  else if isEmpty && "->".toList.isPrefixOf cs then 2
  else if isEmpty && ">".toList.isPrefixOf cs then 1
  else byteSize cs

def locate? (text : List Char) (start : Nat) : List Char → Option (Comment × List Char)
  | [] => none
  | c::cs =>
    if commentOpening.isPrefixOf (c::cs) then
      let content := cs.drop 3
      match matchSize? text content with
      | some size =>
        let rest := dropBytes size content
        let closing := closingSize text.isEmpty rest
        let contentStart := start + 4
        let contentStop := contentStart + size
        some (⟨⟨start, contentStop + closing⟩, ⟨contentStart, contentStop⟩⟩, dropBytes closing rest)
      | none => locate? text (start + c.utf8Size) cs
    else locate? text (start + c.utf8Size) cs

/-- Comments for the texts in order. A text that is not found is left out. -/
def locateAll (start : Nat) (cs : List Char) : List (List Char) → List Comment
  | [] => []
  | text::texts =>
    match locate? text start cs with
    | some (comment, rest) => comment :: locateAll comment.span.stop rest texts
    | none => locateAll start cs texts

end Comment

/-- The comments of a fragment. One without any comment opening is not read as
HTML, so no tag in it is in doubt. -/
def comments (fragment : List Char) : Except Doubtful (List Comment) :=
  if contains commentOpening fragment then
    (tokens fragment).map (fun ts => Comment.locateAll 0 fragment (ts.map (·.text)))
  else .ok []

/-- Dashes and then white space are removed before the content of a comment,
white space and dashes after it. The result is the number of bytes removed
before, and what is left. -/
def stripPadding (content : List Char) : Nat × List Char :=
  let left := trimStart (content.dropWhile (· == '-'))
  let body := trimEnd (dropEndWhile (· == '-') left)
  (byteSize content - byteSize left, body)

end SlideDirectives.Html
