import SlideDirectives.Deck.Pass

/-!
# Help for the key of a directive

The first directive that is known and whose key touches a position is
described there.
-/

set_option autoImplicit false

namespace SlideDirectives.Editor

open Text Deck

structure Hover where
  contents : String
  range : Range
  deriving DecidableEq, Repr

namespace Hover

def describe (d : Definition) (e : DirectiveEvent) : String :=
  "**" ++ String.ofList e.key.text ++ "**: " ++ d.scope.label ++ " directive" ++
    (if e.isScoped then " (scoped to the current slide)" else "") ++ "\n\n" ++ d.description ++
    "\n\nProvided by " ++ d.provider.label ++ ". [Reference](" ++ d.reference ++ ")"

def isAt (p : Position) (e : DirectiveEvent) : Bool :=
  e.definition.isSome && e.key.range.contains p

def ofEvents (p : Position) (es : List Event) : Option Hover := do
  let e ← (es.filterMap Event.directive?).find? (isAt p)
  let d ← e.definition
  some ⟨describe d e, e.key.range⟩

end Hover

def hover (text : List Char) (p : Position)
    (parse : Markdown.Parser := Markdown.parse .slideDeck) : Except Fault (Option Hover) :=
  (pass text parse).toExcept.map (Hover.ofEvents p)

end SlideDirectives.Editor
