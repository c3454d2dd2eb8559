import SlideDirectives.Html.Tag
import SlideDirectives.Html.RawText

/-!
# What a tag does to the text after it

Some elements have raw text as content, but not inside vector graphics or
mathematics. Inside a list of choices or a set of frames it cannot be told
whether such a tag counts, so it is refused there.
-/

set_option autoImplicit false

namespace SlideDirectives.Html

inductive Namespace where
  | html
  | svg
  | mathml
  deriving DecidableEq, Repr

inductive Doubt where
  | none
  | inSelect
  | inTemplate (depth : Nat)
  | inFrameset
  deriving DecidableEq, Repr

/-- The namespaces around the current one are kept, innermost first. -/
structure Nesting where
  current : Namespace
  outer : List Namespace
  doubt : Doubt
  deriving DecidableEq, Repr

namespace Nesting

def start : Nesting := ⟨.html, [], .none⟩

def among (names : List String) (name : List Char) : Bool :=
  names.any (fun n => n.toList == name)

def textType? (name : List Char) : Option TextType :=
  if name == "plaintext".toList then some .endless
  else if name == "script".toList then some .script
  else if among ["textarea", "title", "style", "iframe", "xmp", "noembed", "noframes", "noscript"] name
  then some .raw
  else none

def doubtAfter? (doubt : Doubt) (name : List Char) : Option Doubt :=
  let unlessText (d : Doubt) : Option Doubt := if (textType? name).isSome then Option.none else some d
  match doubt with
  | .none =>
    if name == "select".toList then some .inSelect
    else if name == "frameset".toList then some .inFrameset
    else some .none
  | .inSelect =>
    if among ["select", "textarea", "input", "keygen"] name then some .none
    else if name == "template".toList then some (.inTemplate 1)
    else if name == "script".toList then some .inSelect
    else unlessText .inSelect
  | .inTemplate depth =>
    if name == "template".toList then some (.inTemplate (depth + 1)) else unlessText (.inTemplate depth)
  | .inFrameset =>
    if name == "noframes".toList then some .inFrameset else unlessText .inFrameset

def doubtAfterEnd (doubt : Doubt) (name : List Char) : Doubt :=
  match doubt with
  | .inSelect => if name == "select".toList then .none else doubt
  | .inTemplate depth =>
    if name == "template".toList then (if depth = 1 then .inSelect else .inTemplate (depth - 1)) else doubt
  | _ => doubt

/-- Tags that cannot stand in graphics or mathematics and so end them. -/
def breaksOut (name : List Char) : Bool :=
  among ["b", "big", "blockquote", "body", "br", "center", "code", "dd", "div", "dl", "dt", "em",
    "embed", "h1", "h2", "h3", "h4", "h5", "h6", "head", "hr", "i", "img", "li", "listing", "menu",
    "meta", "nobr", "ol", "p", "pre", "ruby", "s", "small", "span", "strong", "strike", "sub", "sup",
    "table", "tt", "u", "ul", "var"] name

def holdsHtml (ns : Namespace) (name : List Char) : Bool :=
  match ns with
  | .svg => among ["desc", "title", "foreignobject"] name
  | .mathml => among ["mi", "mo", "mn", "ms", "mtext"] name
  | .html => false

def isAnnotation (name : List Char) : Bool :=
  name == "annotation-xml".toList

def annotationHoldsHtml (t : Tag) : Bool :=
  t.attributes.any (fun a =>
    a.name == "encoding".toList
      && among ["text/html", "application/xhtml+xml"] (Text.lower a.value))

def styledFont (t : Tag) : Bool :=
  t.name == "font".toList && t.attributes.any (fun a => among ["color", "size", "face"] a.name)

def enter (n : Nesting) (ns : Namespace) : Nesting :=
  { n with current := ns, outer := n.current :: n.outer }

def leave (n : Nesting) : Nesting :=
  match n.outer with
  | [] => n
  | ns::outer => { n with current := ns, outer := outer }

def foreignStart (n : Nesting) (t : Tag) : Nesting :=
  if breaksOut t.name then n.leave
  else if holdsHtml n.current t.name then (if t.selfClosing then n else n.enter .html)
  else if styledFont t then n.leave
  else if n.current = .mathml ∧ isAnnotation t.name ∧ !t.selfClosing ∧ annotationHoldsHtml t then
    n.enter .html
  else n

def afterStart? (n : Nesting) (t : Tag) : Option (Nesting × Option TextType) := do
  let doubt ← doubtAfter? n.doubt t.name
  let n := { n with doubt := doubt }
  if t.name == "svg".toList then some (n.enter .svg, none)
  else if t.name == "math".toList then some (n.enter .mathml, none)
  else if n.current = .html then some (n, textType? t.name)
  else some (n.foreignStart t, none)

def afterEnd (n : Nesting) (name : List Char) : Nesting :=
  let n := { n with doubt := doubtAfterEnd n.doubt name }
  match n.current, n.outer with
  | .html, ns::_ =>
    if holdsHtml ns name || (ns = .mathml && isAnnotation name) then n.leave else n
  | .html, [] => n
  | .svg, _ => if among ["svg", "p", "br"] name then n.leave else n
  | .mathml, _ => if among ["math", "p", "br"] name then n.leave else n

end Nesting

end SlideDirectives.Html
