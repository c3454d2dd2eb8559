import SlideDirectives.Html.Closed
import SlideDirectives.Html.Nesting
import SlideDirectives.Text.Bytes

/-!
# Comments of a fragment

A fragment is read as HTML. Each comment that is found has the bytes it was
read from and those of its content. A tag whose meaning is in doubt stops the
reading.
-/

set_option autoImplicit false

namespace SlideDirectives.Html

open Text

/-- `opened` says that the comment starts with the delimiter of comments, and
is not another declaration that is read as one. -/
structure CommentToken where
  span : Span
  content : Span
  text : List Char
  opened : Bool
  deriving DecidableEq, Repr

namespace CommentToken

def ofClosed (start before : Nat) (opened : Bool) (c : Closed) : CommentToken :=
  let contentStart := start + before
  let contentStop := contentStart + byteSize c.content
  ⟨⟨start, contentStop + byteSize c.closing⟩, ⟨contentStart, contentStop⟩, c.content, opened⟩

end CommentToken

inductive Opening where
  | comment (before : Nat) (opened : Bool) (c : Closed)
  | skipped (rest : List Char)
  | startTag (t : Tag) (rest : List Char)
  | endTag (t : Tag) (rest : List Char)
  deriving Repr

def doctypeName : List Char := "doctype".toList

def cdataOpening : List Char := "[CDATA[".toList

def afterCdata : List Char → List Char
  | ']' :: ']' :: '>' :: cs => cs
  | _::cs => afterCdata cs
  | [] => []

def tagOr (make : Tag → List Char → Opening) (cs : List Char) : Opening :=
  match Tag.ofText? cs with
  | some (t, rest) => make t rest
  | none => .skipped []

def declaration (foreign : Bool) (cs : List Char) : Opening :=
  match cs with
  | '-' :: '-' :: cs => .comment 4 true (Closed.ofText cs)
  | cs =>
    if lower (cs.take doctypeName.length) == doctypeName then .skipped (Closed.bogus cs).rest
    else if foreign && cdataOpening.isPrefixOf cs then .skipped (afterCdata (cs.drop cdataOpening.length))
    else .comment 2 false (Closed.bogus cs)

def opening (foreign : Bool) (cs : List Char) : Opening :=
  match cs with
  | '!' :: cs => declaration foreign cs
  | '?' :: cs => .comment 1 false (Closed.bogus ('?' :: cs))
  | '/' :: '>' :: cs => .skipped cs
  | '/' :: c::cs =>
    if c.isAlpha then tagOr .endTag (c::cs) else .comment 2 false (Closed.bogus (c::cs))
  | c::cs => if c.isAlpha then tagOr .startTag (c::cs) else .skipped (c::cs)
  | [] => .skipped []

abbrev Doubtful := List Char

def tokensGo : Nat → Nesting → Nat → List Char → Except Doubtful (List CommentToken)
  | 0, _, _, _ => .ok []
  | _, _, _, [] => .ok []
  | fuel + 1, n, start, c::cs =>
    if c ≠ '<' then tokensGo fuel n (start + c.utf8Size) cs
    else
      let here (rest : List Char) : Nat := start + 1 + (byteSize cs - byteSize rest)
      match opening (n.current != .html) cs with
      | .comment before opened closed =>
        (tokensGo fuel n (here closed.rest) closed.rest).map
          (CommentToken.ofClosed start before opened closed :: ·)
      | .skipped rest => tokensGo fuel n (here rest) rest
      | .endTag t rest => tokensGo fuel (n.afterEnd t.name) (here rest) rest
      | .startTag t rest =>
        match n.afterStart? t with
        | none => .error t.name
        | some (n, none) => tokensGo fuel n (here rest) rest
        | some (n, some type) =>
          let rest := RawText.rest type t.name rest
          tokensGo fuel n (here rest) rest

def tokens (fragment : List Char) : Except Doubtful (List CommentToken) :=
  tokensGo (fragment.length + 1) Nesting.start 0 fragment

end SlideDirectives.Html
