import Mathlib.Logic.Relation
import SlideDirectives.Editor.Completion
import SlideDirectives.Proofs.Editor.Reports
import SlideDirectives.Proofs.Text.Distinct
import SlideDirectives.Proofs.Text.Trim

/-!
# Names that an editor knows

Options say no more than which names they list, and a name is what trimming
leaves of it. A theme more is a report less for every directive that asks for
it; nothing else that is reported depends on the themes.
-/

set_option autoImplicit false

namespace SlideDirectives.Editor

open Text Deck

section Names

variable {names names' builtin : List (List Char)} {x : List Char}

/-- One change to a list of names that adds none and takes none away. -/
inductive Respelled : List (List Char) → List (List Char) → Prop
  | permuted {names names' : List (List Char)} (order : names.Perm names') :
    Respelled names names'
  | repeated {name : List Char} {names : List (List Char)} (listed : name ∈ names) :
    Respelled names (name :: names)
  | padded {before after : List Char} (name : List Char) (names : List (List Char))
    (blankBefore : ∀ c ∈ before, isBlank c = true) (blankAfter : ∀ c ∈ after, isBlank c = true) :
    Respelled (name :: names) ((before ++ name ++ after) :: names)
  | blank {name : List Char} (names : List (List Char)) (blank : ∀ c ∈ name, isBlank c = true) :
    Respelled names (name :: names)

/-- What a list of names stands for. -/
def Lists (names : List (List Char)) (x : List Char) : Prop :=
  x ≠ [] ∧ ∃ name ∈ names, trim name = x

theorem lists_cons {name : List Char} :
    Lists (name :: names) x ↔ x ≠ [] ∧ trim name = x ∨ Lists names x := by
  simp only [Lists, List.mem_cons, exists_eq_or_imp, and_or_left]

theorem trim_of_blank {name : List Char} (h : ∀ c ∈ name, isBlank c = true) : trim name = [] := by
  have hnone : ∀ c ∈ ([] : List Char), isBlank c = true := by simp
  have htrim := trim_padded h hnone []
  rw [List.append_nil, List.append_nil] at htrim
  exact htrim

theorem Respelled.lists (h : Respelled names names') : Lists names x ↔ Lists names' x := by
  cases h with
  | permuted order => simp only [Lists, order.mem_iff]
  | repeated listed =>
    rw [lists_cons]
    exact ⟨Or.inr, fun hor => hor.elim (fun ⟨hx, hname⟩ => ⟨hx, _, listed, hname⟩) id⟩
  | padded name names blankBefore blankAfter =>
    rw [lists_cons, lists_cons, trim_padded blankBefore blankAfter]
  | blank names blank =>
    rw [lists_cons, trim_of_blank blank]
    exact ⟨Or.inr, fun hor => hor.elim (fun ⟨hx, hname⟩ => absurd hname.symm hx) id⟩

theorem lists_of_respelled (h : Relation.EqvGen Respelled names names') :
    Lists names x ↔ Lists names' x := by
  induction h with
  | rel _ _ h => exact h.lists
  | refl _ => exact Iff.rfl
  | symm _ _ _ ih => exact ih.symm
  | trans _ _ _ _ _ ih ih' => exact ih.trans ih'

theorem mem_knownNames : x ∈ knownNames builtin names ↔ x ∈ builtin ∨ Lists names x := by
  simp only [knownNames, mem_distinct, List.mem_append, List.mem_filter, List.mem_map, Lists,
    Bool.not_eq_true', List.isEmpty_eq_false_iff]
  rw [and_comm]

theorem knownNames_eq (h : ∀ x, x ∈ builtin ∨ Lists names x ↔ x ∈ builtin ∨ Lists names' x) :
    knownNames builtin names = knownNames builtin names' := by
  have hmem : ∀ x, x ∈ knownNames builtin names ↔ x ∈ knownNames builtin names' := by
    intro x
    rw [mem_knownNames, mem_knownNames, h]
  exact distinct_eq_iff.mpr fun x => by simpa only [knownNames, mem_distinct] using hmem x

/-- Options that differ by how their names are spelled and listed. -/
structure SameNames (o o' : Options) : Prop where
  themes : Relation.EqvGen Respelled o.themes o'.themes
  sizes : Relation.EqvGen Respelled o.sizes o'.sizes
  math : o.math = o'.math
  reports : o.reports = o'.reports

theorem SameNames.resolve {o o' : Options} (h : SameNames o o') : o.resolve = o'.resolve := by
  have hknown : ∀ {names names'} (builtin : List (List Char)),
      Relation.EqvGen Respelled names names' →
      knownNames builtin names = knownNames builtin names' :=
    fun _ h => knownNames_eq fun _ => or_congr_right (lists_of_respelled h)
  rw [Options.resolve, Options.resolve, hknown _ h.themes, hknown _ h.sizes, h.math, h.reports]

end Names

section Themes

open Rule (ofName unknownThemeOf unknownSizeOf quote)

def unknownTheme (name : List Char) : String :=
  "The specified theme " ++ quote name ++ " is not recognized."

theorem around_injective (before after : String) :
    Function.Injective fun name => before ++ name ++ after := by
  intro name name' h
  have hchars := congrArg String.toList h
  simp only [String.toList_append, List.append_left_inj, List.append_right_inj] at hchars
  exact String.toList_injective hchars

theorem unknownTheme_injective : Function.Injective unknownTheme := by
  intro name name' h
  have hquoted : quote name = quote name' := around_injective _ _ h
  exact String.ofList_injective (around_injective _ _ hquoted)

/-- Whether a diagnostic is about a directive that asks for the theme. -/
def asksFor (name : List Char) (d : Diagnostic) : Bool :=
  d.rule == .unknownTheme && d.message == unknownTheme name

theorem asksFor_iff {name value : List Char} {range : Range} :
    asksFor name ⟨.unknownTheme, unknownTheme value, range⟩ = true ↔ value = name := by
  simp [asksFor, unknownTheme_injective.eq_iff]

/-- Options with one theme more. -/
structure Adds (name : List Char) (o o' : Resolved) : Prop where
  themes : ∀ x, x ≠ [] → (x ∈ o'.themes ↔ x ∈ o.themes ∨ x = name)
  sizes : o'.sizes = o.sizes
  math : o'.math = o.math
  reports : o'.reports = o.reports

variable {name : List Char} {o o' : Resolved} {rest es : List Event} {d : Diagnostic}

theorem Adds.unknownThemeOf (h : Adds name o o') (e : DirectiveEvent) :
    Rule.unknownThemeOf o' e = (Rule.unknownThemeOf o e).filter (!asksFor name ·) := by
  ext d
  rw [Option.filter_eq_some_iff, Rule.unknownThemeOf_eq_some, Rule.unknownThemeOf_eq_some,
    Bool.not_eq_true', ← Bool.not_eq_true]
  constructor
  · rintro ⟨v, ⟨hname, hvalue, hwritten⟩, hunknown, rfl⟩
    rw [h.themes _ hwritten, not_or] at hunknown
    exact ⟨⟨v, ⟨hname, hvalue, hwritten⟩, hunknown.1, rfl⟩,
      fun hasks => hunknown.2 (asksFor_iff.mp hasks)⟩
  · rintro ⟨⟨v, ⟨hname, hvalue, hwritten⟩, hunknown, rfl⟩, hasks⟩
    refine ⟨v, ⟨hname, hvalue, hwritten⟩, ?_, rfl⟩
    rw [h.themes _ hwritten, not_or]
    exact ⟨hunknown, fun heq => hasks (asksFor_iff.mpr heq)⟩

theorem rule_of_found {r : RuleName} (hrest : .startParse ∉ rest)
    (hd : d ∈ ((ofName o r).seeAll (.startParse :: rest)).finish.1) : d.rule = r := by
  obtain ⟨⟨i, d⟩, hplace, rfl⟩ := List.mem_map.mp ((Rule.seeAll_asked o r hrest).mem_iff.mp hd)
  exact rule_of_mem_places hplace

theorem Adds.found_others (h : Adds name o o') {r : RuleName} (hr : r ≠ .unknownTheme)
    (hrest : .startParse ∉ rest) :
    ((ofName o' r).seeAll (.startParse :: rest)).finish.1 =
      ((ofName o r).seeAll (.startParse :: rest)).finish.1 := by
  cases r with
  | unknownTheme => exact absurd rfl hr
  | unknownSize =>
    have hown : (Rule.unknownSize o' []).own = (Rule.unknownSize o []).own := by
      funext e
      cases e <;> simp [Rule.own, unknownSizeOf, Resolved.hasSize, h.sizes]
    change ((Rule.unknownSize o' []).seeAll rest).finish.1 =
      ((Rule.unknownSize o []).seeAll rest).finish.1
    rw [Rule.seeAll_collects rfl hrest, Rule.seeAll_collects rfl hrest, hown]
    rfl
  | ignoredMath => rw [ofName, ofName, h.math]
  | defineMath => rw [ofName, ofName, h.math]
  | _ => rfl

theorem Adds.found (h : Adds name o o') (r : RuleName) (hrest : .startParse ∉ rest) :
    ((ofName o' r).seeAll (.startParse :: rest)).finish.1 =
      (((ofName o r).seeAll (.startParse :: rest)).finish.1).filter (!asksFor name ·) := by
  by_cases hr : r = .unknownTheme
  · subst hr
    have hown : (Rule.unknownTheme o' []).own =
        fun e => ((Rule.unknownTheme o []).own e).filter (!asksFor name ·) := by
      funext e
      cases e with
      | directive e => exact h.unknownThemeOf e
      | _ => rfl
    change ((Rule.unknownTheme o' []).seeAll rest).finish.1 =
      (((Rule.unknownTheme o []).seeAll rest).finish.1).filter (!asksFor name ·)
    rw [Rule.seeAll_collects rfl hrest, Rule.seeAll_collects rfl hrest, hown, List.filter_append,
      List.filter_filterMap]
    rfl
  · rw [h.found_others hr hrest]
    refine (List.filter_eq_self.mpr fun d hd => ?_).symm
    rw [asksFor, rule_of_found hrest hd, beq_eq_false_iff_ne.mpr hr]
    rfl

theorem Adds.findings (h : Adds name o o') (hrest : .startParse ∉ rest) :
    findings (allRules o') (.startParse :: rest) =
      (findings (allRules o) (.startParse :: rest)).filter (!asksFor name ·) := by
  simp only [Editor.findings, allRules, List.flatMap_map, Diagnostic.sort_filter,
    List.filter_flatMap, h.found _ hrest]

theorem Adds.diagnose (h : Adds name o o') (text : List Char) (parse : Markdown.Parser) :
    diagnose o' text parse = (diagnose o text parse).map (·.filter (!asksFor name ·)) := by
  rw [Editor.diagnose, Editor.diagnose, h.reports, runRules, runRules]
  split
  · cases hpass : (pass text parse).toExcept with
    | error fault => rfl
    | ok es =>
      obtain ⟨⟨rest, rfl, hrest⟩, -⟩ := pass_events hpass
      exact congrArg Except.ok (h.findings hrest)
  · rfl

theorem rule_of_asksFor (h : asksFor name d = true) : d.rule = .unknownTheme :=
  beq_iff_eq.mp (Bool.and_eq_true_iff.mp h).1

theorem asked_of_mem {ds : List Diagnostic} {text : List Char} {parse : Markdown.Parser} (h : diagnose o text parse = .ok ds)
    (hd : d ∈ ds) : ∃ es before e after, (pass text parse).toExcept = .ok es ∧
      es = before ++ e :: after ∧ Rule.asked o d.rule before e after = some d := by
  rw [Editor.diagnose, runRules] at h
  split at h
  · cases hpass : (pass text parse).toExcept with
    | error fault =>
      rw [hpass] at h
      cases h
    | ok es =>
      rw [hpass] at h
      obtain rfl : findings (allRules o) es = ds := Except.ok.inj h
      obtain ⟨hstart, -⟩ := pass_events hpass
      obtain ⟨⟨i, d⟩, hasked, rfl⟩ := List.mem_map.mp ((findings_askedAll hstart).mem_iff.mp hd)
      obtain ⟨before, e, after, hes, -, r, hasked⟩ := mem_askedAll.mp hasked
      obtain rfl : d.rule = r := (Rule.calls_of_asked hasked).1
      exact ⟨es, before, e, after, rfl, hes, hasked⟩
  · obtain rfl := Except.ok.inj h
    cases hd

theorem unknownTheme_found {ds : List Diagnostic} {text : List Char} {parse : Markdown.Parser}
    (h : diagnose o text parse = .ok ds) (hd : d ∈ ds) (hrule : d.rule = .unknownTheme) :
    ∃ es e v, (pass text parse).toExcept = .ok es ∧ .directive e ∈ es ∧
      (e.name? = some "theme".toList ∧ e.value = some v ∧ trim v.text ≠ []) ∧
      trim v.text ∉ o.themes ∧ d = ⟨.unknownTheme, unknownTheme (trim v.text), v.range⟩ := by
  obtain ⟨es, before, e, after, hpass, hes, hasked⟩ := asked_of_mem h hd
  rw [hrule] at hasked
  cases e with
  | directive e =>
    obtain ⟨v, hwritten, hunknown, hd⟩ := Rule.unknownThemeOf_eq_some.mp hasked
    exact ⟨es, e, v, hpass, by simp [hes], hwritten, hunknown, hd⟩
  | _ => cases hasked

theorem asksFor_known {ds : List Diagnostic} {text : List Char} {parse : Markdown.Parser} (h : diagnose o text parse = .ok ds)
    (hname : name = [] ∨ name ∈ o.themes) (hd : d ∈ ds) : asksFor name d = false := by
  by_contra hasks
  rw [Bool.not_eq_false] at hasks
  obtain ⟨_, _, v, -, -, ⟨-, -, hwritten⟩, hunknown, rfl⟩ :=
    unknownTheme_found h hd (rule_of_asksFor hasks)
  obtain rfl := asksFor_iff.mp hasks
  exact hname.elim hwritten hunknown

theorem adds_resolve (o : Options) (before after : List (List Char)) (theme : List Char) :
    Adds (trim theme) { o with themes := before ++ after }.resolve
      { o with themes := before ++ theme :: after }.resolve := by
  refine ⟨fun x hx => ?_, rfl, rfl, rfl⟩
  have hlists : Lists (before ++ theme :: after) x ↔ Lists (before ++ after) x ∨ x = trim theme := by
    have hperm : Lists (before ++ theme :: after) x ↔ Lists (theme :: (before ++ after)) x :=
      (Respelled.permuted List.perm_middle).lists
    rw [hperm, lists_cons, or_comm, eq_comm, and_iff_right hx]
  change x ∈ knownNames _ _ ↔ x ∈ knownNames _ _ ∨ _
  rw [mem_knownNames, mem_knownNames, hlists, or_assoc]

/-- Only the names that options list count. However they are listed, documents
are diagnosed and completed the same. One theme more takes out the diagnostics
of the directives whose trimmed value it is and leaves all others in order; it
takes out none if it is blank or known. -/
theorem options_by_names :
    (∀ o o' : Options, SameNames o o' → ∀ text parse,
      diagnose o.resolve text parse = diagnose o'.resolve text parse ∧
        ∀ p, complete o.resolve text p parse = complete o'.resolve text p parse) ∧
    ∀ (o : Options) (before after : List (List Char)) (theme text : List Char)
      (parse : Markdown.Parser),
      let without := { o with themes := before ++ after }.resolve
      let added := { o with themes := before ++ theme :: after }.resolve
      diagnose added text parse =
        (diagnose without text parse).map (·.filter (!asksFor (trim theme) ·)) ∧
      (trim theme = [] ∨ trim theme ∈ without.themes →
        diagnose added text parse = diagnose without text parse) ∧
      ∀ ds, diagnose without text parse = .ok ds → ∀ d ∈ ds,
        (asksFor (trim theme) d = true → d.rule = .unknownTheme) ∧
        (d.rule = .unknownTheme → ∃ es e v, (pass text parse).toExcept = .ok es ∧
          .directive e ∈ es ∧ e.name? = some "theme".toList ∧ e.value = some v ∧
          d.range = v.range ∧ d.message = unknownTheme (trim v.text) ∧
          (asksFor (trim theme) d = true ↔ trim v.text = trim theme)) := by
  refine ⟨fun o o' h text parse => ?_, fun o before after theme text parse => ?_⟩
  · rw [h.resolve]
    exact ⟨rfl, fun _ => rfl⟩
  · intro without added
    have hadds : Adds (trim theme) without added := adds_resolve o before after theme
    refine ⟨hadds.diagnose text parse, fun hidle => ?_, fun ds hds d hd => ⟨fun hasks => ?_, ?_⟩⟩
    · rw [hadds.diagnose text parse]
      cases hds : diagnose without text parse with
      | error fault => rfl
      | ok ds =>
        have hkeep : ds.filter (!asksFor (trim theme) ·) = ds :=
          List.filter_eq_self.mpr fun d hd => by rw [asksFor_known hds hidle hd]; rfl
        exact congrArg Except.ok hkeep
    · exact rule_of_asksFor hasks
    · intro hrule
      obtain ⟨es, e, v, hpass, he, ⟨hname, hvalue, -⟩, -, rfl⟩ := unknownTheme_found hds hd hrule
      exact ⟨es, e, v, hpass, he, hname, hvalue, rfl, rfl, asksFor_iff⟩

/-- Two lists of the same themes, and then a theme that two directives ask for. -/
theorem options_by_names_deck :
    let text := "---\ntheme: one\n---\n<!-- theme: two -->\n<!-- theme: one -->".toList
    let o : Options := { Options.standard with themes := ["mine".toList, "yours".toList] }
    let o' : Options := { Options.standard with
      themes := [" ".toList, "yours".toList, " mine\t".toList, "mine".toList] }
    let more : Options := { Options.standard with
      themes := ["mine".toList, " one".toList, "yours".toList] }
    SameNames o o' ∧ diagnose o.resolve text = diagnose o'.resolve text ∧
      ∃ ds, diagnose o.resolve text = .ok ds ∧
        diagnose more.resolve text = .ok (ds.filter (!asksFor "one".toList ·)) ∧
        ds.length = 5 ∧ ds.countP (asksFor "one".toList) = 2 := by
  intro text o o' more
  have hspace : ∀ c ∈ [' '], isBlank c = true := List.forall_mem_singleton.mpr rfl
  have htab : ∀ c ∈ ['\t'], isBlank c = true := List.forall_mem_singleton.mpr rfl
  have hthemes : Relation.EqvGen Respelled o.themes o'.themes := by
    have hrepeated : Respelled o.themes ["mine".toList, "mine".toList, "yours".toList] :=
      .repeated List.mem_cons_self
    have hpadded : Respelled ["mine".toList, "mine".toList, "yours".toList]
        [" mine\t".toList, "mine".toList, "yours".toList] :=
      .padded "mine".toList _ hspace htab
    have hblank : Respelled [" mine\t".toList, "mine".toList, "yours".toList]
        [" ".toList, " mine\t".toList, "mine".toList, "yours".toList] :=
      .blank _ hspace
    have hpermuted : Respelled [" ".toList, " mine\t".toList, "mine".toList, "yours".toList]
        o'.themes := .permuted (by decide)
    exact .trans _ _ _ (.rel _ _ hrepeated) (.trans _ _ _ (.rel _ _ hpadded)
      (.trans _ _ _ (.rel _ _ hblank) (.rel _ _ hpermuted)))
  have hsame : SameNames o o' := ⟨hthemes, .refl _, rfl, rfl⟩
  have hfault : (pass text).fault = none := by decide +kernel
  have hpass : (pass text).toExcept = .ok (pass text).events := by rw [Delivery.toExcept, hfault]
  have hds := @diagnose_of_events o.resolve text _ _ rfl hpass
  obtain ⟨hadded, -⟩ := options_by_names.2 Options.standard ["mine".toList] ["yours".toList]
    " one".toList text (Markdown.parse .slideDeck)
  refine ⟨hsame, (options_by_names.1 o o' hsame text _).1, _, hds,
    hadded.trans (congrArg (Except.map _) hds), ?_, ?_⟩
  · rw [length_findings]
    decide +kernel
  · rw [findings, (Diagnostic.sort_perm _).countP_eq]
    decide +kernel

end Themes

end SlideDirectives.Editor
