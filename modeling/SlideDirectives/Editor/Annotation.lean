import SlideDirectives.Deck.Pass

/-!
# Annotations

Every directive that is known is marked from its key to its value.
-/

set_option autoImplicit false

namespace SlideDirectives.Editor

open Text Deck

inductive AnnotationKind where
  | whole
  | slide
  | scopedSlide
  deriving DecidableEq, Repr

structure Annotation where
  name : List Char
  kind : AnnotationKind
  range : Range
  deriving DecidableEq, Repr

namespace Annotation

def kindOf (d : Definition) (isScoped : Bool) : AnnotationKind :=
  match d.scope with
  | .whole => .whole
  | .slide => if isScoped then .scopedSlide else .slide

def ofDirective? (e : DirectiveEvent) : Option Annotation :=
  e.definition.map (fun d => ⟨d.name, kindOf d e.isScoped, e.fullRange⟩)

def ofEvents (es : List Event) : List Annotation :=
  (es.filterMap Event.directive?).filterMap ofDirective?

end Annotation

def annotate (text : List Char) (parse : Markdown.Parser := Markdown.parse .slideDeck) :
    Except Fault (List Annotation) :=
  (pass text parse).toExcept.map Annotation.ofEvents

end SlideDirectives.Editor
