import SlideDirectives.Text.Basic
import SlideDirectives.Text.Bytes

/-!
# Front matter

Front matter opens the document with a line of three or more dashes and runs
to the first line that is exactly three dashes once trimmed. Without that
closing line there is none.
-/

set_option autoImplicit false

namespace SlideDirectives

open Text

structure FrontMatter where
  span : Span
  body : Span
  deriving DecidableEq, Repr

namespace FrontMatter

def openingSize (f : FrontMatter) : Nat :=
  f.body.start - f.span.start

def isOpening (line : List Char) : Bool :=
  let fence := trimEnd line
  3 ≤ fence.length && fence.all (· == '-')

def isClosing (line : List Char) : Bool :=
  trim line == ['-', '-', '-']

def close? (bodyStart : Nat) : Nat → List Line → Option FrontMatter
  | _, [] => none
  | offset, l::ls =>
    if isClosing l.content then
      some ⟨⟨0, offset + byteSize l.content⟩, ⟨bodyStart, offset⟩⟩
    else close? bodyStart (offset + l.size) ls

def find? (text : List Char) : Option FrontMatter :=
  match lines text with
  | [] => none
  | l::ls => if isOpening l.content then close? l.size l.size ls else none

end FrontMatter

end SlideDirectives
