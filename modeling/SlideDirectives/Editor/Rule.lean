import SlideDirectives.Css.Color
import SlideDirectives.Deck.Event
import SlideDirectives.Deck.Pass
import SlideDirectives.Directive.Builtin
import SlideDirectives.Editor.Diagnostic
import SlideDirectives.Editor.Options

/-!
# Rules

A rule watches the events of a pass and remembers what it needs. A new pass
makes it forget; what it found is handed over once. All rules watch one pass over
a document. A pass that fails has no diagnostics.
-/

set_option autoImplicit false

namespace SlideDirectives.Editor

open Text Deck

structure Assigned where
  name : List Char
  ranges : List Range
  deriving DecidableEq, Repr

inductive Rule where
  | overloadingGlobal (assigned : List Assigned)
  | unknownTheme (options : Resolved) (found : List Diagnostic)
  | unknownSize (options : Resolved) (found : List Diagnostic)
  | dollarPrefix (found : List Diagnostic)
  | colorShorthand (found : List Diagnostic)
  | ignoredMath (typesetting : MathTypesetting) (found : List Diagnostic)
  | defineMath (typesetting : MathTypesetting) (defined : Bool) (first : Option Range)
  deriving Repr

namespace Rule

def ofName (o : Resolved) : RuleName → Rule
  | .overloadingGlobal => .overloadingGlobal []
  | .unknownTheme => .unknownTheme o []
  | .unknownSize => .unknownSize o []
  | .dollarPrefix => .dollarPrefix []
  | .colorShorthand => .colorShorthand []
  | .ignoredMath => .ignoredMath o.math []
  | .defineMath => .defineMath o.math false none

def name : Rule → RuleName
  | .overloadingGlobal _ => .overloadingGlobal
  | .unknownTheme _ _ => .unknownTheme
  | .unknownSize _ _ => .unknownSize
  | .dollarPrefix _ => .dollarPrefix
  | .colorShorthand _ => .colorShorthand
  | .ignoredMath _ _ => .ignoredMath
  | .defineMath _ _ _ => .defineMath

def quote (cs : List Char) : String :=
  "\x22" ++ String.ofList cs ++ "\x22"

def assign (name : List Char) (range : Range) : List Assigned → List Assigned
  | [] => [⟨name, [range]⟩]
  | a :: as =>
    if a.name = name then ⟨name, a.ranges ++ [range]⟩ :: as else a :: assign name range as

/-- Every assignment but the last is ignored. -/
def Assigned.overloaded (a : Assigned) : List Diagnostic :=
  a.ranges.dropLast.map (⟨.overloadingGlobal, "The global directive " ++ quote a.name ++
    " is overloaded by a later definition. This value is ignored.", ·⟩)

def valueOf (name : String) (e : DirectiveEvent) : Option Ranged :=
  if e.name? = some name.toList then
    (e.value.map (fun v => Ranged.mk (trim v.text) v.range)).filter (! ·.text.isEmpty)
  else none

def unknownThemeOf (o : Resolved) (e : DirectiveEvent) : Option Diagnostic :=
  ((valueOf "theme" e).filter (! o.hasTheme ·.text)).map (fun v =>
    ⟨.unknownTheme, "The specified theme " ++ quote v.text ++ " is not recognized.", v.range⟩)

def unknownSizeOf (o : Resolved) (e : DirectiveEvent) : Option Diagnostic :=
  ((valueOf "size" e).filter (! o.hasSize ·.text)).map (fun v =>
    ⟨.unknownSize, quote v.text ++ " is not a known size preset. Available presets: " ++
      String.intercalate ", " (o.sizes.map quote) ++ ".", v.range⟩)

/-- A key that is no directive, but a dollar and the name of a global one. -/
def dollarPrefixOf (e : DirectiveEvent) : Option Diagnostic :=
  match e.definition, e.key.text with
  | none, '$' :: name =>
    ((Registry.builtin.get? name).filter Definition.isGlobal).map (fun _ =>
      ⟨.dollarPrefix, "The dollar prefix of global directive " ++ quote ('$' :: name) ++
        " is deprecated. Use " ++ quote name ++ " instead.", e.key.range⟩)
  | _, _ => none

def colorDirective? (alt : List Char) : Option String :=
  let alt := trim alt
  if alt.isEmpty then some "color"
  else if lower alt = "bg".toList then some "backgroundColor"
  else none

def colorShorthandOf (e : ImageEvent) : Option Diagnostic :=
  match colorDirective? e.image.alt with
  | some directive =>
    if Css.isColor e.image.url then
      some ⟨.colorShorthand, "Setting colors through image syntax is deprecated. Use the " ++
        quote directive.toList ++ " local directive instead.", e.range⟩
    else none
  | none => none

def setsMath (e : DirectiveEvent) : Bool :=
  e.name? == some "math".toList

def ignoredMathOf (t : MathTypesetting) (e : DirectiveEvent) : Option Diagnostic :=
  if t = .off ∧ setsMath e then
    some ⟨.ignoredMath,
      "The math global directive is ignored because math typesetting is disabled.", e.fullRange⟩
  else none

def definedMathOf (range : Range) : Diagnostic :=
  ⟨.defineMath, "Math syntax is used without a math global directive. Define " ++
    quote "math".toList ++ " to pin the typesetting library.", range⟩

def reset : Rule → Rule
  | .overloadingGlobal _ => .overloadingGlobal []
  | .unknownTheme o _ => .unknownTheme o []
  | .unknownSize o _ => .unknownSize o []
  | .dollarPrefix _ => .dollarPrefix []
  | .colorShorthand _ => .colorShorthand []
  | .ignoredMath t _ => .ignoredMath t []
  | .defineMath t _ _ => .defineMath t false none

def seeDirective (e : DirectiveEvent) : Rule → Rule
  | .overloadingGlobal assigned =>
    match e.definition with
    | some d => .overloadingGlobal (if d.isGlobal then assign d.name e.fullRange assigned else assigned)
    | none => .overloadingGlobal assigned
  | .unknownTheme o found => .unknownTheme o (found ++ (unknownThemeOf o e).toList)
  | .unknownSize o found => .unknownSize o (found ++ (unknownSizeOf o e).toList)
  | .dollarPrefix found => .dollarPrefix (found ++ (dollarPrefixOf e).toList)
  | .ignoredMath t found => .ignoredMath t (found ++ (ignoredMathOf t e).toList)
  | .defineMath t defined first => .defineMath t (defined || setsMath e) first
  | r => r

def see (r : Rule) (e : Event) : Rule :=
  match e, r with
  | .startParse, r => r.reset
  | .directive e, r => r.seeDirective e
  | .image e, .colorShorthand found => .colorShorthand (found ++ (colorShorthandOf e).toList)
  | .maybeMath e, .defineMath t defined first => .defineMath t defined (first.or (some e.range))
  | _, r => r

def seeAll (r : Rule) (es : List Event) : Rule :=
  es.foldl see r

/-- What the rule found since it last handed over, and the rule without it. -/
def finish : Rule → List Diagnostic × Rule
  | .overloadingGlobal assigned => (assigned.flatMap Assigned.overloaded, .overloadingGlobal [])
  | .unknownTheme o found => (found, .unknownTheme o [])
  | .unknownSize o found => (found, .unknownSize o [])
  | .dollarPrefix found => (found, .dollarPrefix [])
  | .colorShorthand found => (found, .colorShorthand [])
  | .ignoredMath t found => (found, .ignoredMath t [])
  | .defineMath t defined first =>
    (if t = .off ∨ defined then [] else first.toList.map definedMathOf, .defineMath t defined none)

end Rule

def findings (rules : List Rule) (es : List Event) : List Diagnostic :=
  Diagnostic.sort (rules.flatMap (fun r => (r.seeAll es).finish.1))

def runRules (rules : List Rule) (text : List Char)
    (parse : Markdown.Parser := Markdown.parse .slideDeck) : Except Fault (List Diagnostic) :=
  (pass text parse).toExcept.map (findings rules)

def allRules (o : Resolved) : List Rule :=
  RuleName.all.map (Rule.ofName o)

/-- Nothing is read when reports are switched off. -/
def diagnose (o : Resolved) (text : List Char)
    (parse : Markdown.Parser := Markdown.parse .slideDeck) : Except Fault (List Diagnostic) :=
  if o.reports then runRules (allRules o) text parse else .ok []

section Outcomes

variable {o : Resolved} {text : List Char} {parse : Markdown.Parser}

theorem diagnose_of_events {es : List Event} (ho : o.reports = true)
    (h : (pass text parse).toExcept = .ok es) :
    diagnose o text parse = .ok (findings (allRules o) es) := by
  rw [diagnose, if_pos ho, runRules, h]
  rfl

theorem diagnose_of_fault {f : Fault} (ho : o.reports = true)
    (h : (pass text parse).toExcept = .error f) : diagnose o text parse = .error f := by
  rw [diagnose, if_pos ho, runRules, h]
  rfl

theorem length_findings (rules : List Rule) (es : List Event) :
    (findings rules es).length = (rules.flatMap (fun r => (r.seeAll es).finish.1)).length := by
  rw [findings, Diagnostic.sort, Diagnostic.sortOn, List.length_mergeSort]

end Outcomes

end SlideDirectives.Editor
