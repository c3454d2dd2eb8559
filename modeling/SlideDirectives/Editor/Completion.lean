import SlideDirectives.Deck.Pass
import SlideDirectives.Editor.Options

/-!
# Completion of keys and values

Completion is offered within front matter and comments. What was typed between
the start of the line and the cursor decides whether keys are offered or, behind
a colon, the values of the key before it.
-/

set_option autoImplicit false

namespace SlideDirectives.Editor

open Text Deck

inductive CompletionKind where
  | property
  | value
  deriving DecidableEq, Repr

structure Completion where
  label : List Char
  kind : CompletionKind
  detail : String
  documentation : Option String
  inserted : List Char
  range : Range
  deriving DecidableEq, Repr

namespace Completion

structure Region where
  context : Context
  range : Range
  deriving DecidableEq, Repr

def region? : Event → Option Region
  | .frontMatter e => some ⟨.frontMatter, e.bodyRange⟩
  | .comment e => some ⟨.comment, e.contentRange⟩
  | _ => none

def regionAt? (p : Position) (es : List Event) : Option Region :=
  (es.filterMap region?).find? (·.range.contains p)

def ofKey (range : Range) (d : Definition) (isScoped : Bool) : Completion :=
  let label := if isScoped then d.scopedName else d.name
  let detail := if isScoped then "local directive (scoped)" else d.scope.label ++ " directive"
  ⟨label, .property, detail, some d.description, label ++ [':', ' '], range⟩

def keys (context : Context) (range : Range) : List Completion :=
  let allowed := Registry.builtin.definitions.filter (·.allows context)
  allowed.map (ofKey range · false) ++ (allowed.filter Definition.isLocal).map (ofKey range · true)

def paginateValues : List (List Char) :=
  ["true", "false", "hold", "skip"].map String.toList

def booleanValues : List (List Char) :=
  ["true", "false"].map String.toList

def valuesOf (o : Resolved) (d : Definition) : List (List Char) :=
  if !d.offersValues then []
  else if d.name = "theme".toList then o.themes
  else if d.name = "size".toList then o.sizes
  else if d.name = "math".toList then mathLibraries
  else if d.name = "paginate".toList then paginateValues
  else if d.name = "marp".toList then booleanValues
  else []

def ofValue (range : Range) (d : Definition) (value : List Char) : Completion :=
  ⟨value, .value, String.ofList d.name, none, value, range⟩

def values (o : Resolved) (context : Context) (key : List Char) (range : Range) : List Completion :=
  match Registry.builtin.lookup? key context with
  | some found => (valuesOf o found.definition).map (ofValue range found.definition)
  | none => []

def isKeyChar (c : Char) : Bool :=
  c.isAlphanum || c == '_'

/-- What is offered behind the text typed so far, which ends at `offset`. -/
def offered (o : Resolved) (d : Document) (context : Context) (typed : List Char) (offset : Nat) :
    List Completion :=
  let replaced (cs : List Char) : Range := d.rangeOf ⟨offset - byteSize cs, offset⟩
  let key := typed.takeWhile (· != ':')
  match typed.drop key.length with
  | _ :: value =>
    let value := trimStart value
    values o context (trim key) (replaced value)
  | [] => if typed.all isKeyChar then keys context (replaced typed) else []

def inRegion (o : Resolved) (d : Document) (p : Position) (r : Region) : List Completion :=
  let offset := d.offsetAt p
  let start := max (d.offsetAt ⟨p.line, 0⟩) r.range.span.start
  if offset < start then []
  else offered o d r.context (trimStart (d.textIn ⟨start, offset⟩)) offset

def ofEvents (o : Resolved) (d : Document) (p : Position) (es : List Event) : List Completion :=
  ((regionAt? p es).map (inRegion o d p)).getD []

end Completion

def complete (o : Resolved) (text : List Char) (p : Position)
    (parse : Markdown.Parser := Markdown.parse .slideDeck) : Except Fault (List Completion) :=
  (pass text parse).toExcept.map (Completion.ofEvents o ⟨text⟩ p)

end SlideDirectives.Editor
