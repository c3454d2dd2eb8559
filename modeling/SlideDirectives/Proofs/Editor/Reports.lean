import SlideDirectives.Proofs.Deck.Recognised
import SlideDirectives.Proofs.Deck.Stream
import SlideDirectives.Proofs.Editor.DiagnosticOrder
import SlideDirectives.Proofs.Editor.RuleFindings

/-!
# What a document is reported for

`Calls` says of one event, with the events before and behind it, what is to be
reported of it, without any rule that watches the stream. A document gets these
reports and no others, each as often as the stream calls for it.
-/

set_option autoImplicit false

namespace SlideDirectives.Editor

open Text Deck

/-- A diagnostic as it is shown to an author. -/
structure Report where
  code : String
  severity : Severity
  message : String
  range : Range
  deriving DecidableEq, Repr

namespace Diagnostic

def report (d : Diagnostic) : Report :=
  ⟨d.code, d.severity, d.message, d.range⟩

theorem report_injective : Function.Injective report := by
  rintro ⟨rule, message, range⟩ ⟨rule', message', range'⟩ h
  obtain ⟨hcode, -, rfl, rfl⟩ := Report.mk.inj h
  obtain rfl := code_injective hcode
  rfl

end Diagnostic

section Calls

open Rule (quote)

variable (o : Resolved) (before : List Event)

/-- What is to be reported of an event that stands between others. -/
inductive Calls : Event → List Event → Report → Prop
  /-- A global directive that a later one of its name overrides. -/
  | overloadingGlobal {e e' : DirectiveEvent} {d : Definition} {after : List Event}
      (known : e.definition = some d) (global : d.scope = .whole)
      (later : .directive e' ∈ after) (same : e'.name? = some d.name) :
      Calls (.directive e) after ⟨"overloading-global-directive", .warning,
        "The global directive " ++ quote d.name ++
          " is overloaded by a later definition. This value is ignored.", e.fullRange⟩
  | unknownTheme {e : DirectiveEvent} {v : Ranged} {after : List Event}
      (name : e.name? = some "theme".toList) (value : e.value = some v)
      (written : trim v.text ≠ []) (unknown : trim v.text ∉ o.themes) :
      Calls (.directive e) after ⟨"unknown-theme", .warning,
        "The specified theme " ++ quote (trim v.text) ++ " is not recognized.", v.range⟩
  | unknownSize {e : DirectiveEvent} {v : Ranged} {after : List Event}
      (name : e.name? = some "size".toList) (value : e.value = some v)
      (written : trim v.text ≠ []) (unknown : trim v.text ∉ o.sizes) :
      Calls (.directive e) after ⟨"unknown-size", .warning,
        quote (trim v.text) ++ " is not a known size preset. Available presets: " ++
          String.intercalate ", " (o.sizes.map quote) ++ ".", v.range⟩
  /-- A key that is not recognised, but would be without its dollar. -/
  | dollarPrefix {e : DirectiveEvent} {d : Definition} {after : List Event}
      (unmatched : e.definition = none) (dollar : e.key.text = '$' :: d.name)
      (builtin : d ∈ Builtin.definitions) (global : d.scope = .whole) :
      Calls (.directive e) after ⟨"deprecated-dollar-prefix", .warning,
        "The dollar prefix of global directive " ++ quote ('$' :: d.name) ++
          " is deprecated. Use " ++ quote d.name ++ " instead.", e.key.range⟩
  | color {e : ImageEvent} {after : List Event}
      (alt : trim e.image.alt = []) (url : Css.isColor e.image.url = true) :
      Calls (.image e) after ⟨"deprecated-color-setting-shorthand", .warning,
        "Setting colors through image syntax is deprecated. Use the " ++ quote "color".toList ++
          " local directive instead.", e.range⟩
  | backgroundColor {e : ImageEvent} {after : List Event}
      (alt : lower (trim e.image.alt) = "bg".toList) (url : Css.isColor e.image.url = true) :
      Calls (.image e) after ⟨"deprecated-color-setting-shorthand", .warning,
        "Setting colors through image syntax is deprecated. Use the " ++
          quote "backgroundColor".toList ++ " local directive instead.", e.range⟩
  | ignoredMath {e : DirectiveEvent} {after : List Event}
      (off : o.math = .off) (name : e.name? = some "math".toList) :
      Calls (.directive e) after ⟨"ignored-math-global-directive", .warning,
        "The math global directive is ignored because math typesetting is disabled.", e.fullRange⟩
  /-- The first math of a document in which no directive chooses a library. -/
  | defineMath {e : MathEvent} {after : List Event}
      (on : o.math ≠ .off) (first : ∀ e', .maybeMath e' ∉ before)
      (undefined : ∀ e', .directive e' ∈ before ++ after → e'.name? ≠ some "math".toList) :
      Calls (.maybeMath e) after ⟨"define-math-global-directive", .information,
        "Math syntax is used without a math global directive. Define " ++ quote "math".toList ++
          " to pin the typesetting library.", e.range⟩

end Calls

namespace Rule

variable {o : Resolved} {before after : List Event} {d : Diagnostic}

theorem valueOf_eq_some {name : String} {e : DirectiveEvent} {w : Ranged} :
    valueOf name e = some w ↔ e.name? = some name.toList ∧
      ∃ v, e.value = some v ∧ trim v.text ≠ [] ∧ w = ⟨trim v.text, v.range⟩ := by
  rw [valueOf]
  split
  · next hname =>
    cases hvalue : e.value with
    | none => simp
    | some v =>
      by_cases hwritten : trim v.text = []
      · simp [Option.filter, hwritten]
      · simp [Option.filter, hwritten, hname, @eq_comm _ w]
  · next hname => simp [hname]

theorem unknown_eq_some {name : String} {known : List (List Char)} {made : Ranged → Diagnostic}
    {e : DirectiveEvent} :
    ((valueOf name e).filter (fun w => !known.contains w.text)).map made = some d ↔
      ∃ v, (e.name? = some name.toList ∧ e.value = some v ∧ trim v.text ≠ []) ∧
        trim v.text ∉ known ∧ d = made ⟨trim v.text, v.range⟩ := by
  simp only [Option.map_eq_some_iff, Option.filter_eq_some_iff, valueOf_eq_some,
    Bool.not_eq_true', List.contains_eq_mem, decide_eq_false_iff_not]
  constructor
  · rintro ⟨_, ⟨⟨hname, v, hvalue, hwritten, rfl⟩, hunknown⟩, rfl⟩
    exact ⟨v, ⟨hname, hvalue, hwritten⟩, hunknown, rfl⟩
  · rintro ⟨v, ⟨hname, hvalue, hwritten⟩, hunknown, rfl⟩
    exact ⟨_, ⟨⟨hname, v, hvalue, hwritten, rfl⟩, hunknown⟩, rfl⟩

theorem unknownThemeOf_eq_some {e : DirectiveEvent} : unknownThemeOf o e = some d ↔
    ∃ v, (e.name? = some "theme".toList ∧ e.value = some v ∧ trim v.text ≠ []) ∧
      trim v.text ∉ o.themes ∧ d = ⟨.unknownTheme,
        "The specified theme " ++ quote (trim v.text) ++ " is not recognized.", v.range⟩ :=
  unknown_eq_some

theorem unknownSizeOf_eq_some {e : DirectiveEvent} : unknownSizeOf o e = some d ↔
    ∃ v, (e.name? = some "size".toList ∧ e.value = some v ∧ trim v.text ≠ []) ∧
      trim v.text ∉ o.sizes ∧ d = ⟨.unknownSize,
        quote (trim v.text) ++ " is not a known size preset. Available presets: " ++
          String.intercalate ", " (o.sizes.map quote) ++ ".", v.range⟩ :=
  unknown_eq_some

theorem dollarPrefixOf_eq_some {e : DirectiveEvent} : dollarPrefixOf e = some d ↔
    ∃ f ∈ Builtin.definitions, (e.definition = none ∧ e.key.text = '$' :: f.name) ∧
      f.scope = .whole ∧ d = ⟨.dollarPrefix, "The dollar prefix of global directive " ++
        quote ('$' :: f.name) ++ " is deprecated. Use " ++ quote f.name ++ " instead.",
        e.key.range⟩ := by
  unfold dollarPrefixOf
  split
  · next name hdefinition hkey =>
    simp only [Option.map_eq_some_iff, Option.filter_eq_some_iff,
      Registry.builtin_distinct.get?_eq_some, Definition.isGlobal, beq_iff_eq]
    constructor
    · rintro ⟨f, ⟨⟨hmem, rfl⟩, hglobal⟩, rfl⟩
      exact ⟨f, hmem, ⟨hdefinition, hkey⟩, hglobal, rfl⟩
    · rintro ⟨f, hmem, ⟨-, hdollar⟩, hglobal, rfl⟩
      obtain ⟨-, rfl⟩ := List.cons.inj (hkey.symm.trans hdollar)
      exact ⟨f, ⟨⟨hmem, rfl⟩, hglobal⟩, rfl⟩
  · next hneither =>
    constructor
    · intro h
      cases h
    · rintro ⟨f, -, ⟨hdefinition, hdollar⟩, -⟩
      exact absurd hdollar (hneither _ hdefinition)

theorem colorDirective?_eq_some {alt : List Char} {directive : String} :
    colorDirective? alt = some directive ↔ trim alt = [] ∧ directive = "color" ∨
      lower (trim alt) = "bg".toList ∧ directive = "backgroundColor" := by
  simp only [colorDirective?, List.isEmpty_iff]
  split
  · next hempty => simp [hempty, lower, @eq_comm _ directive]
  · next hwritten =>
    split
    · next hbg => simp [hwritten, hbg, @eq_comm _ directive]
    · next hother => simp only [hwritten, hother, false_and, or_false, reduceCtorEq]

theorem colorShorthandOf_eq_some {e : ImageEvent} : colorShorthandOf e = some d ↔
    ∃ directive, colorDirective? e.image.alt = some directive ∧ Css.isColor e.image.url = true ∧
      d = ⟨.colorShorthand, "Setting colors through image syntax is deprecated. Use the " ++
        quote directive.toList ++ " local directive instead.", e.range⟩ := by
  rw [colorShorthandOf]
  cases colorDirective? e.image.alt with
  | none => simp
  | some directive => simp [@eq_comm _ d]

theorem setsGlobal_eq_true {name : List Char} {e : Event} : setsGlobal name e = true ↔
    ∃ e' f, e = .directive e' ∧ e'.definition = some f ∧ f.scope = .whole ∧ f.name = name := by
  cases e with
  | directive e =>
    cases hdefinition : e.definition with
    | none => simp [setsGlobal, global?, hdefinition]
    | some f => cases hscope : f.scope <;>
        simp [setsGlobal, global?, hdefinition, Definition.isGlobal, hscope, Option.filter]
  | _ => simp [setsGlobal, global?]

theorem overloadedBy_eq_some {e : Event} : overloadedBy e after = some d ↔
    ∃ e' f, (e = .directive e' ∧ e'.definition = some f ∧ f.scope = .whole) ∧
      after.any (setsGlobal f.name) = true ∧ d = overloadedOf f.name e'.fullRange := by
  cases e with
  | directive e =>
    cases hdefinition : e.definition with
    | none => simp [overloadedBy, global?, hdefinition]
    | some f => cases hscope : f.scope <;>
        simp [overloadedBy, global?, hdefinition, Definition.isGlobal, hscope, Option.filter,
          @eq_comm _ d]
  | _ => simp [overloadedBy, global?]

theorem math?_isSome {e : Event} : (math? e).isSome = true ↔ ∃ m, e = .maybeMath m := by
  cases e <;> simp [math?]

theorem definesMath_eq_true {e : Event} : definesMath e = true ↔
    ∃ e', e = .directive e' ∧ e'.name? = some "math".toList := by
  cases e <;> simp [definesMath, setsMath]

theorem undefinedMath_eq_some {t : MathTypesetting} {e : Event} :
    undefinedMath t before e after = some d ↔
    ∃ m, e = .maybeMath m ∧ (t ≠ .off ∧ (∀ m', .maybeMath m' ∉ before) ∧
      ∀ e', .directive e' ∈ before ++ after → e'.name? ≠ some "math".toList) ∧
      d = definedMathOf m.range := by
  cases e with
  | maybeMath m =>
    have hfirst : before.any (math? · |>.isSome) = true ↔ ∃ m', .maybeMath m' ∈ before := by
      simp only [List.any_eq_true, math?_isSome]
      exact ⟨fun ⟨_, hmem, m', hm'⟩ => ⟨m', hm' ▸ hmem⟩, fun ⟨m', hmem⟩ => ⟨_, hmem, m', rfl⟩⟩
    have hdefined : (before ++ .maybeMath m :: after).any definesMath = true ↔
        ∃ e', .directive e' ∈ before ++ after ∧ e'.name? = some "math".toList := by
      simp only [List.any_eq_true, definesMath_eq_true]
      constructor
      · rintro ⟨_, hmem, e', rfl, hname⟩
        exact ⟨e', by simpa using hmem, hname⟩
      · rintro ⟨e', hmem, hname⟩
        exact ⟨_, by simpa using hmem, e', rfl, hname⟩
    rw [undefinedMath, Option.ite_none_left_eq_some, hfirst, hdefined]
    simp [math?, @eq_comm _ d]
  | _ => simp [undefinedMath, math?]

theorem ignoredMathOf_eq_some {t : MathTypesetting} {e : DirectiveEvent} :
    ignoredMathOf t e = some d ↔ (t = .off ∧ e.name? = some "math".toList) ∧ d = ⟨.ignoredMath,
      "The math global directive is ignored because math typesetting is disabled.",
      e.fullRange⟩ := by
  rw [ignoredMathOf, Option.ite_none_right_eq_some, setsMath, beq_iff_eq, Option.some.injEq,
    @eq_comm _ d]

theorem calls_of_asked {r : RuleName} {e : Event} (h : asked o r before e after = some d) :
    d.rule = r ∧ Calls o before e after d.report := by
  cases r with
  | overloadingGlobal =>
    obtain ⟨e', f, ⟨rfl, known, global⟩, hlater, rfl⟩ := overloadedBy_eq_some.mp h
    obtain ⟨_, later, hsets⟩ := List.any_eq_true.mp hlater
    obtain ⟨e'', f', rfl, hknown, -, hname⟩ := setsGlobal_eq_true.mp hsets
    have same : e''.name? = some f.name := by
      rw [DirectiveEvent.name?, hknown, Option.map_some, hname]
    exact ⟨rfl, .overloadingGlobal known global later same⟩
  | unknownTheme =>
    cases e with
    | directive e =>
      obtain ⟨v, ⟨name, value, written⟩, unknown, rfl⟩ := unknownThemeOf_eq_some.mp h
      exact ⟨rfl, .unknownTheme name value written unknown⟩
    | _ => cases h
  | unknownSize =>
    cases e with
    | directive e =>
      obtain ⟨v, ⟨name, value, written⟩, unknown, rfl⟩ := unknownSizeOf_eq_some.mp h
      exact ⟨rfl, .unknownSize name value written unknown⟩
    | _ => cases h
  | dollarPrefix =>
    cases e with
    | directive e =>
      obtain ⟨f, builtin, ⟨unmatched, dollar⟩, global, rfl⟩ := dollarPrefixOf_eq_some.mp h
      exact ⟨rfl, .dollarPrefix unmatched dollar builtin global⟩
    | _ => cases h
  | colorShorthand =>
    cases e with
    | image e =>
      obtain ⟨directive, hdirective, url, rfl⟩ := colorShorthandOf_eq_some.mp h
      rcases colorDirective?_eq_some.mp hdirective with ⟨alt, rfl⟩ | ⟨alt, rfl⟩
      · exact ⟨rfl, .color alt url⟩
      · exact ⟨rfl, .backgroundColor alt url⟩
    | _ => cases h
  | ignoredMath =>
    cases e with
    | directive e =>
      obtain ⟨⟨off, name⟩, rfl⟩ := ignoredMathOf_eq_some.mp h
      exact ⟨rfl, .ignoredMath off name⟩
    | _ => cases h
  | defineMath =>
    obtain ⟨m, rfl, ⟨on, first, undefined⟩, rfl⟩ := undefinedMath_eq_some.mp h
    exact ⟨rfl, .defineMath on first undefined⟩

theorem asked_of_calls {e : Event} (hbuiltin : ∀ e', .directive e' ∈ e :: after →
    ∀ f, e'.definition = some f → f ∈ Builtin.definitions) {p : Report}
    (h : Calls o before e after p) : ∃ r d, asked o r before e after = some d ∧ d.report = p := by
  cases h with
  | @overloadingGlobal e e' f after known global later same =>
    obtain ⟨f', hknown, hname⟩ := Option.map_eq_some_iff.mp same
    -- Names are distinct among the built-in directives, so the later one is global as well.
    have hsame : f' = f := Registry.builtin_distinct.eq_of_name
      (hbuiltin e' (List.mem_cons_of_mem _ later) f' hknown)
      (hbuiltin e List.mem_cons_self f known) hname
    have hsets : setsGlobal f.name (.directive e') = true :=
      setsGlobal_eq_true.mpr ⟨e', f, rfl, hsame ▸ hknown, global, rfl⟩
    exact ⟨.overloadingGlobal, _, overloadedBy_eq_some.mpr
      ⟨e, f, ⟨rfl, known, global⟩, List.any_eq_true.mpr ⟨_, later, hsets⟩, rfl⟩, rfl⟩
  | unknownTheme name value written unknown =>
    exact ⟨.unknownTheme, _,
      unknownThemeOf_eq_some.mpr ⟨_, ⟨name, value, written⟩, unknown, rfl⟩, rfl⟩
  | unknownSize name value written unknown =>
    exact ⟨.unknownSize, _,
      unknownSizeOf_eq_some.mpr ⟨_, ⟨name, value, written⟩, unknown, rfl⟩, rfl⟩
  | dollarPrefix unmatched dollar builtin global =>
    exact ⟨.dollarPrefix, _,
      dollarPrefixOf_eq_some.mpr ⟨_, builtin, ⟨unmatched, dollar⟩, global, rfl⟩, rfl⟩
  | color alt url =>
    have hdirective := colorDirective?_eq_some.mpr (Or.inl ⟨alt, rfl⟩)
    exact ⟨.colorShorthand, _, colorShorthandOf_eq_some.mpr ⟨_, hdirective, url, rfl⟩, rfl⟩
  | backgroundColor alt url =>
    have hdirective := colorDirective?_eq_some.mpr (Or.inr ⟨alt, rfl⟩)
    exact ⟨.colorShorthand, _, colorShorthandOf_eq_some.mpr ⟨_, hdirective, url, rfl⟩, rfl⟩
  | ignoredMath off name =>
    exact ⟨.ignoredMath, _, ignoredMathOf_eq_some.mpr ⟨⟨off, name⟩, rfl⟩, rfl⟩
  | defineMath on first undefined =>
    exact ⟨.defineMath, _, undefinedMath_eq_some.mpr ⟨_, rfl, ⟨on, first, undefined⟩, rfl⟩, rfl⟩

end Rule

section Diagnosed

variable {o : Resolved} {text : List Char} {parse : Markdown.Parser} {es : List Event}

theorem toExcept_eq_ok {del : Delivery} (h : del.toExcept = .ok es) :
    del.fault = none ∧ del.events = es := by
  rw [Delivery.toExcept] at h
  split at h
  · cases h
  · next hfault => exact ⟨hfault, Except.ok.inj h⟩

/-- A pass starts once, and what it finds is read from the text. -/
theorem pass_events (h : (pass text parse).toExcept = .ok es) :
    (∃ rest, es = .startParse :: rest ∧ .startParse ∉ rest) ∧
      ∀ e, .directive e ∈ es → ∀ f, e.definition = some f → f ∈ Builtin.definitions := by
  obtain ⟨-, rfl⟩ := toExcept_eq_ok h
  let s : Source := ⟨⟨text⟩, Registry.builtin⟩
  refine ⟨⟨_, congrArg Delivery.events (Source.passWith_eq parse s), ?_⟩, ?_⟩
  · intro hmem
    rcases List.mem_append.mp hmem with hmem | hmem
    · exact Bool.noConfusion (s.inner_not_isBound parse _ hmem)
    · cases Delivery.mem_closing hmem
  · intro e he f hf
    exact (Source.made_of_passWith (s := s) he).mem_definitions hf

theorem RuleName.mem_all (r : RuleName) : r ∈ RuleName.all := by
  cases r <;> decide

theorem RuleName.all_nodup : RuleName.all.Nodup := by
  decide

def askedAll (o : Resolved) (es : List Event) : List (Nat × Diagnostic) :=
  RuleName.all.flatMap (fun r => places (Rule.asked o r) [] es)

theorem mem_askedAll {i : Nat} {d : Diagnostic} : (i, d) ∈ askedAll o es ↔
    ∃ before e after, es = before ++ e :: after ∧ before.length = i ∧
      ∃ r, Rule.asked o r before e after = some d := by
  simp only [askedAll, List.mem_flatMap, mem_places, List.nil_append, List.length_nil, Nat.zero_add]
  constructor
  · rintro ⟨r, -, before, e, after, hes, rfl, hasked⟩
    exact ⟨before, e, after, hes, rfl, r, hasked⟩
  · rintro ⟨before, e, after, hes, rfl, r, hasked⟩
    exact ⟨r, RuleName.mem_all r, before, e, after, hes, rfl, hasked⟩

theorem rule_of_mem_places {r : RuleName} {i : Nat} {d : Diagnostic}
    (h : (i, d) ∈ places (Rule.asked o r) [] es) : d.rule = r := by
  obtain ⟨_, _, _, -, -, hasked⟩ := mem_places.mp h
  exact (Rule.calls_of_asked hasked).1

theorem askedAll_nodup : (askedAll o es).Nodup := by
  refine List.nodup_flatMap.mpr ⟨fun r _ => places_nodup [] es, ?_⟩
  refine RuleName.all_nodup.imp fun {r r'} hne => ?_
  rintro ⟨i, d⟩ hd hd'
  exact hne ((rule_of_mem_places hd).symm.trans (rule_of_mem_places hd'))

theorem findings_askedAll (h : ∃ rest, es = .startParse :: rest ∧ .startParse ∉ rest) :
    (findings (allRules o) es).Perm ((askedAll o es).map Prod.snd) := by
  obtain ⟨rest, rfl, hrest⟩ := h
  refine (Diagnostic.sort_perm _).trans ?_
  rw [allRules, askedAll, List.flatMap_map, List.map_flatMap]
  exact List.Perm.flatMap_left _ fun r _ => Rule.seeAll_asked o r hrest

/-- If a pass succeeds, its document is diagnosed with what its events call
for, each time that they do, and with nothing else, sorted by range and code. -/
theorem diagnose_reports (o : Resolved) (text : List Char) (parse : Markdown.Parser)
    (es : List Event)
    (ho : o.reports = true) (h : (pass text parse).toExcept = .ok es) :
    ∃ ds, diagnose o text parse = .ok ds ∧ ds.Pairwise (fun a b => a.sortKey ≤ b.sortKey) ∧
      ∃ calls : List (Nat × Report), calls.Nodup ∧
        (∀ i p, (i, p) ∈ calls ↔ ∃ before e after, es = before ++ e :: after ∧
          before.length = i ∧ Calls o before e after p) ∧
        (ds.map Diagnostic.report).Perm (calls.map Prod.snd) := by
  obtain ⟨hstart, hbuiltin⟩ := pass_events h
  refine ⟨findings (allRules o) es, diagnose_of_events ho h, Diagnostic.sort_sorted _,
    (askedAll o es).map (Prod.map id Diagnostic.report), ?_, ?_, ?_⟩
  · exact askedAll_nodup.map (Function.injective_id.prodMap Diagnostic.report_injective)
  · intro i p
    rw [List.mem_map]
    constructor
    · rintro ⟨⟨_, d⟩, hd, heq⟩
      obtain ⟨rfl, rfl⟩ := Prod.mk.inj heq
      obtain ⟨before, e, after, hes, hlength, r, hasked⟩ := mem_askedAll.mp hd
      exact ⟨before, e, after, hes, hlength, (Rule.calls_of_asked hasked).2⟩
    · rintro ⟨before, e, after, hes, hlength, hcalls⟩
      have hhere : ∀ e', .directive e' ∈ e :: after → ∀ f, e'.definition = some f →
          f ∈ Builtin.definitions :=
        fun e' he' => hbuiltin e' (hes ▸ List.mem_append_right before he')
      obtain ⟨r, d, hasked, rfl⟩ := Rule.asked_of_calls hhere hcalls
      exact ⟨(i, d), mem_askedAll.mpr ⟨before, e, after, hes, hlength, r, hasked⟩, rfl⟩
  · have hperm := (findings_askedAll (o := o) hstart).map Diagnostic.report
    rwa [List.map_map] at hperm ⊢

/-- A deck in which a theme is set again, an image and math share a line, and
math is pinned nowhere. -/
theorem diagnose_reports_deck :
    let text :=
      "---\ntheme: nope\n---\n![bg](red) $x$\n\n<!-- theme: gaia\n$size: 1 -->".toList
    let o := Options.standard.resolve
    let es := (pass text).events
    o.reports = true ∧ (pass text).toExcept = .ok es ∧
      ∃ ds, diagnose o text = .ok ds ∧ ds.Pairwise (fun a b => a.sortKey ≤ b.sortKey) ∧
        ∃ calls : List (Nat × Report), calls.Nodup ∧
          (2, ⟨"overloading-global-directive", .warning, "The global directive \x22theme\x22 is " ++
            "overloaded by a later definition. This value is ignored.",
            ⟨⟨1, 0⟩, ⟨1, 11⟩, ⟨4, 15⟩⟩⟩) ∈ calls ∧
          (4, ⟨"define-math-global-directive", .information, "Math syntax is used without a " ++
            "math global directive. Define \x22math\x22 to pin the typesetting library.",
            ⟨⟨3, 11⟩, ⟨3, 14⟩, ⟨31, 34⟩⟩⟩) ∈ calls ∧
          (ds.map Diagnostic.report).Perm (calls.map Prod.snd) := by
  intro text o es
  have hfault : (pass text).fault = none := by decide +kernel
  have hpass : (pass text).toExcept = .ok es := by rw [Delivery.toExcept, hfault]
  obtain ⟨ds, hds, hsorted, calls, hnodup, hcalls, hperm⟩ := diagnose_reports o text _ es rfl hpass
  have hcall : ∀ (i : Nat) (r : RuleName) (d : Diagnostic),
      es[i]?.bind (fun e => Rule.asked o r (es.take i) e (es.drop (i + 1))) = some d →
      (i, d.report) ∈ calls := by
    intro i r d h
    obtain ⟨e, he, hasked⟩ := Option.bind_eq_some_iff.mp h
    obtain ⟨hi, rfl⟩ := List.getElem?_eq_some_iff.mp he
    have hcall := (Rule.calls_of_asked hasked).2
    refine (hcalls _ _).mpr ⟨es.take i, es[i], es.drop (i + 1), ?_, ?_, hcall⟩
    · simp
    · exact List.length_take_of_le (Nat.le_of_lt hi)
  refine ⟨rfl, hpass, ds, hds, hsorted, calls, hnodup, ?_, ?_, hperm⟩
  · exact hcall 2 .overloadingGlobal ⟨.overloadingGlobal, _, _⟩ (by decide +kernel)
  · exact hcall 4 .defineMath ⟨.defineMath, _, _⟩ (by decide +kernel)

end Diagnosed

end SlideDirectives.Editor
