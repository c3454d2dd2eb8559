import SlideDirectives.Proofs.Deck.InOrder
import SlideDirectives.Proofs.Directive.Lookup
import SlideDirectives.Proofs.Editor.Reports

/-!
# Detection of slide decks

A directive of front matter switches the features of slide decks on or off. Of
several only the last one takes effect, and all others are reported as ignored.
Detection asks instead whether any of them switches the features on, so it
follows the last one only as long as no ignored one says otherwise.
-/

set_option autoImplicit false

namespace SlideDirectives

open Text

namespace Deck

namespace DirectiveEvent

/-- A directive of front matter that switches slide decks on or off. -/
def isSwitch (e : DirectiveEvent) : Bool :=
  e.context == .frontMatter && e.name? == some "marp".toList

def turnsOn (e : DirectiveEvent) : Bool :=
  e.valueText == "true".toList

end DirectiveEvent

def switches (es : List Event) : List DirectiveEvent :=
  (es.filterMap Event.directive?).filter (·.isSwitch)

theorem mem_switches {es : List Event} {e : DirectiveEvent} :
    e ∈ switches es ↔ .directive e ∈ es ∧ e.isSwitch = true := by
  rw [switches, List.mem_filter, mem_filterMap_directive?]

theorem switches_append (es es' : List Event) : switches (es ++ es') = switches es ++ switches es' := by
  rw [switches, List.filterMap_append, List.filter_append]
  rfl

theorem switches_cons {e : DirectiveEvent} (h : e.isSwitch = true) (es : List Event) :
    switches (.directive e :: es) = e :: switches es :=
  List.filter_cons_of_pos h

namespace Source

variable {s : Source} {e : DirectiveEvent}

theorem directive_of_inner {parse : Markdown.Parser}
    (h : .directive e ∈ (s.inner parse).events) :
    ∃ offset p, s.bodyStart ≤ offset ∧ e = s.directive offset .comment p := by
  obtain ⟨n, -, hfrom⟩ := mem_inner h
  cases hfrom with
  | directive =>
    refine ⟨_, _, ?_, rfl⟩
    simp only [commentBody, Span.shift]
    omega

def frontDirectives (s : Source) : List DirectiveEvent :=
  ((s.front?.map s.frontMatter).getD []).filterMap Event.directive?

theorem frontDirectives_none (h : s.front? = none) : s.frontDirectives = [] := by
  rw [frontDirectives, h]
  rfl

theorem frontDirectives_some {f : FrontMatter} (h : s.front? = some f) :
    s.frontDirectives = (Yaml.Outline.read (s.document.textIn f.body)).pairs.map
      (s.directive f.body.start .frontMatter) := by
  have hdirectives : (s.directives f.body.start .frontMatter (s.document.textIn f.body)) =
      ((Yaml.Outline.read (s.document.textIn f.body)).pairs.map
        (s.directive f.body.start .frontMatter)).map .directive := by
    rw [directives, List.map_map]
    rfl
  rw [frontDirectives, h, Option.map_some, Option.getD_some, frontMatter,
    List.filterMap_cons_none rfl, hdirectives, filterMap_directive?]

theorem directives_passWith (s : Source) (parse : Markdown.Parser) :
    ∃ ds, (s.passWith parse).events.filterMap Event.directive? = s.frontDirectives ++ ds ∧
      s.frontDirectives.Pairwise (fun d d' => d.keySpan.start < d'.keySpan.start) ∧
      (∀ d ∈ s.frontDirectives, d.keySpan.start < s.bodyStart) ∧
      ∀ d ∈ ds, s.bodyStart ≤ d.keySpan.start ∧ d.context = .comment := by
  have horder := front_in_order s
  refine ⟨(s.inner parse).events.filterMap Event.directive?, ?_, horder.keys,
    fun d hd => (horder.keysPlaced d hd).2, ?_⟩
  · have hclosing : (s.inner parse).closing.filterMap Event.directive? = [] := by
      rw [Delivery.closing]
      split <;> rfl
    rw [passWith_eq, List.filterMap_cons_none rfl, List.filterMap_append, List.filterMap_append,
      hclosing, List.append_nil, frontDirectives]
  · intro d hd
    obtain ⟨offset, p, hoffset, rfl⟩ := directive_of_inner (mem_filterMap_directive?.mp hd)
    exact ⟨Nat.le_trans hoffset (Nat.le_add_left _ _), rfl⟩

end Source

section Switches

theorem switch_definition {d : Definition} (hd : d ∈ Builtin.definitions)
    (hname : d.name = "marp".toList) : d.scope = .whole ∧ d.allowed = [.frontMatter] := by
  have hall : ∀ d ∈ Builtin.definitions, d.name = "marp".toList →
      d.scope = .whole ∧ d.allowed = [.frontMatter] := by
    decide
  exact hall d hd hname

theorem lookup?_switch {key : List Char} {context : Context} :
    (∃ m, Registry.builtin.lookup? key context = some m ∧ m.definition.name = "marp".toList) ↔
      key = "marp".toList ∧ context = .frontMatter := by
  constructor
  · rintro ⟨m, hm, hname⟩
    rcases (Registry.lookup?_eq_some Registry.builtin_distinct).mp hm with ⟨h, -⟩ | ⟨-, h, -⟩
    · have hallowed := h.allowed
      rw [Definition.allows, (switch_definition h.declared hname).2] at hallowed
      exact ⟨h.name.symm.trans hname, by simpa using hallowed⟩
    · have hslide := h.ofSlide
      rw [(switch_definition h.declared hname).1] at hslide
      cases hslide
  · rintro ⟨rfl, rfl⟩
    exact ⟨⟨Builtin.definitions.head (by decide), false⟩, by decide, rfl⟩

variable {s : Source} {e : DirectiveEvent}

theorem isSwitch_directive (hs : s.registry = Registry.builtin) (offset : Nat) (context : Context)
    (p : Yaml.Pair) : (s.directive offset context p).isSwitch = true ↔
      p.key.text = "marp".toList ∧ context = .frontMatter := by
  rw [← lookup?_switch]
  simp only [DirectiveEvent.isSwitch, DirectiveEvent.name?, Source.directive, hs,
    Bool.and_eq_true, beq_iff_eq, Option.map_map, Option.map_eq_some_iff, Function.comp]
  constructor
  · rintro ⟨-, h⟩
    exact h
  · rintro ⟨m, hm, hname⟩
    exact ⟨(lookup?_switch.mp ⟨m, hm, hname⟩).2, m, hm, hname⟩

theorem turnsOn_directive (offset : Nat) (context : Context) (p : Yaml.Pair) :
    (s.directive offset context p).turnsOn =
      p.value.any (fun v => trim v.text == "true".toList) := by
  cases hvalue : p.value <;>
    simp [DirectiveEvent.turnsOn, DirectiveEvent.valueText, Source.directive, Source.ranged, hvalue]

theorem switches_passWith (s : Source) (parse : Markdown.Parser) :
    switches (s.passWith parse).events = s.frontDirectives.filter (·.isSwitch) := by
  obtain ⟨ds, hds, -, -, hcomments⟩ := s.directives_passWith parse
  have hnone : ds.filter (·.isSwitch) = [] := by
    rw [List.filter_eq_nil_iff]
    intro d hd
    simp [DirectiveEvent.isSwitch, (hcomments d hd).2]
  rw [switches, hds, List.filter_append, hnone, List.append_nil]

/-- A text is taken for a slide deck if any switch turns slide decks on. -/
theorem isSlideDeck_eq_any (text : List Char) (parse : Markdown.Parser) :
    isSlideDeck text =
      (switches (Source.passWith parse ⟨⟨text⟩, Registry.builtin⟩).events).any (·.turnsOn) := by
  let s : Source := ⟨⟨text⟩, Registry.builtin⟩
  change isSlideDeck text = (switches (s.passWith parse).events).any (·.turnsOn)
  rw [switches_passWith, isSlideDeck]
  cases hfront : FrontMatter.find? text with
  | none =>
    have hfront : s.front? = none := hfront
    rw [Source.frontDirectives_none hfront]
    rfl
  | some f =>
    have hfront : s.front? = some f := hfront
    have hswitch : ∀ p, (s.directive f.body.start .frontMatter p).isSwitch =
        (p.key.text == "marp".toList) := by
      intro p
      rw [Bool.eq_iff_iff, isSwitch_directive rfl, beq_iff_eq]
      exact and_iff_left rfl
    rw [Source.frontDirectives_some hfront, List.any_filter, List.any_map]
    simp only [Function.comp_def, hswitch, turnsOn_directive]
    rfl

end Switches

end Deck

namespace Editor

open Deck

/-- It is reported that the directive has no effect. -/
def Ignored (ds : List Diagnostic) (e : DirectiveEvent) : Prop :=
  ∃ d ∈ ds, d.rule = .overloadingGlobal ∧ d.range = e.fullRange

section Ignored

variable {o : Resolved} {text : List Char} {parse : Markdown.Parser} {es : List Event}
  {e : DirectiveEvent}

/-- Ignored is a global directive that a later one overrides. -/
theorem ignored_iff (h : (pass text parse).toExcept = .ok es) :
    Ignored (findings (allRules o) es) e ↔ ∃ before e' after, es = before ++ .directive e' :: after ∧
      e'.fullRange = e.fullRange ∧ ∃ f, e'.definition = some f ∧ f.scope = .whole ∧
        after.any (Rule.setsGlobal f.name) = true := by
  have hperm := findings_askedAll (o := o) (pass_events h).1
  constructor
  · rintro ⟨d, hd, hrule, hrange⟩
    obtain ⟨⟨i, d'⟩, hd', rfl⟩ := List.mem_map.mp (hperm.mem_iff.mp hd)
    obtain ⟨before, x, after, rfl, -, r, hasked⟩ := mem_askedAll.mp hd'
    obtain rfl := (Rule.calls_of_asked hasked).1.symm.trans hrule
    obtain ⟨e', f, ⟨rfl, hf, hglobal⟩, hlater, rfl⟩ := Rule.overloadedBy_eq_some.mp hasked
    exact ⟨before, e', after, rfl, hrange, f, hf, hglobal, hlater⟩
  · rintro ⟨before, e', after, rfl, hrange, f, hf, hglobal, hlater⟩
    refine ⟨Rule.overloadedOf f.name e'.fullRange, hperm.mem_iff.mpr ?_, rfl, hrange⟩
    refine List.mem_map.mpr ⟨(before.length, _), mem_askedAll.mpr ?_, rfl⟩
    exact ⟨before, _, after, rfl, rfl, .overloadingGlobal,
      Rule.overloadedBy_eq_some.mpr ⟨e', f, ⟨rfl, hf, hglobal⟩, hlater, rfl⟩⟩

theorem setsGlobal_switch (h : (pass text parse).toExcept = .ok es) (he : .directive e ∈ es) :
    Rule.setsGlobal "marp".toList (.directive e) = true ↔ e.isSwitch = true := by
  obtain ⟨-, rfl⟩ := toExcept_eq_ok h
  obtain ⟨offset, context, p, rfl⟩ := Source.made_of_passWith he
  rw [isSwitch_directive rfl, ← lookup?_switch, Rule.setsGlobal_eq_true]
  constructor
  · rintro ⟨e', f, heq, hf, -, hname⟩
    obtain rfl := Event.directive.inj heq
    obtain ⟨m, hm, rfl⟩ := Option.map_eq_some_iff.mp hf
    exact ⟨m, hm, hname⟩
  · rintro ⟨m, hm, hname⟩
    have hglobal := (switch_definition (Registry.mem_of_lookup? hm) hname).1
    exact ⟨_, m.definition, rfl, Option.map_eq_some_iff.mpr ⟨m, hm, rfl⟩, hglobal, hname⟩

theorem eq_switch_of_fullRange {e' : DirectiveEvent} (h : (pass text parse).toExcept = .ok es)
    (he : e ∈ switches es) (he' : .directive e' ∈ es) (hrange : e'.fullRange = e.fullRange) :
    e' = e := by
  obtain ⟨-, rfl⟩ := toExcept_eq_ok h
  let s : Source := ⟨⟨text⟩, Registry.builtin⟩
  obtain ⟨ds, hds, hordered, hfront, hcomments⟩ := s.directives_passWith parse
  have hswitches : e ∈ s.frontDirectives.filter (·.isSwitch) := by
    rw [← switches_passWith s parse]
    exact he
  have hmem : e ∈ s.frontDirectives := List.mem_of_mem_filter hswitches
  have hstart : e'.keySpan.start = e.keySpan.start := congrArg (·.span.start) hrange
  have hmem' : e' ∈ s.frontDirectives ++ ds := by
    rw [← hds]
    exact List.mem_filterMap.mpr ⟨_, he', rfl⟩
  rcases List.mem_append.mp hmem' with hmem' | hmem'
  · have hnodup : (s.frontDirectives.map (·.keySpan.start)).Nodup :=
      List.pairwise_map.mpr (hordered.imp Nat.ne_of_lt)
    exact List.inj_on_of_nodup_map hnodup hmem' hmem hstart
  · have hbefore := hfront e hmem
    have hbehind := (hcomments e' hmem').1
    omega

theorem switches_nodup (h : (pass text parse).toExcept = .ok es) : (switches es).Nodup := by
  obtain ⟨-, rfl⟩ := toExcept_eq_ok h
  let s : Source := ⟨⟨text⟩, Registry.builtin⟩
  obtain ⟨ds, -, hordered, -⟩ := s.directives_passWith parse
  have hnodup : s.frontDirectives.Nodup := hordered.imp fun hlt heq => by
    rw [heq] at hlt
    exact Nat.lt_irrefl _ hlt
  rw [Deck.pass, switches_passWith]
  exact hnodup.filter _

theorem overridden_iff {before after : List Event}
    (h : (pass text parse).toExcept = .ok (before ++ .directive e :: after)) (he : e.isSwitch = true) :
    (∃ f, e.definition = some f ∧ f.scope = .whole ∧
      after.any (Rule.setsGlobal f.name) = true) ↔ switches after ≠ [] := by
  obtain ⟨_, f, heq, hf, hglobal, hname⟩ :=
    Rule.setsGlobal_eq_true.mp ((setsGlobal_switch h (by simp)).mpr he)
  obtain rfl := Event.directive.inj heq
  have hbehind : ∀ e', .directive e' ∈ after →
      (Rule.setsGlobal f.name (.directive e') = true ↔ e'.isSwitch = true) := by
    intro e' he'
    rw [hname]
    exact setsGlobal_switch h (by simp [he'])
  constructor
  · rintro ⟨f', hf', -, hlater⟩
    obtain rfl := Option.some.inj (hf.symm.trans hf')
    obtain ⟨x, hx, hsets⟩ := List.any_eq_true.mp hlater
    obtain ⟨e', _, rfl, -⟩ := Rule.setsGlobal_eq_true.mp hsets
    exact List.ne_nil_of_mem (mem_switches.mpr ⟨hx, (hbehind e' hx).mp hsets⟩)
  · intro hne
    obtain ⟨e', he'⟩ := List.exists_mem_of_ne_nil _ hne
    obtain ⟨hx, hswitch⟩ := mem_switches.mp he'
    exact ⟨f, hf, hglobal, List.any_eq_true.mpr ⟨_, hx, (hbehind e' hx).mpr hswitch⟩⟩

theorem getLast?_ne_iff {α : Type} {x : α} {xs ys : List α} (h : (xs ++ x :: ys).Nodup) :
    (xs ++ x :: ys).getLast? ≠ some x ↔ ys ≠ [] := by
  rw [List.getLast?_append_of_ne_nil _ (List.cons_ne_nil x ys)]
  constructor
  · rintro hlast rfl
    exact hlast rfl
  · intro hne hlast
    rw [List.getLast?_cons_of_ne_nil hne] at hlast
    exact (List.nodup_cons.mp (List.nodup_append.mp h).2.1).1 (List.mem_of_getLast? hlast)

/-- All switches but the last one are ignored. -/
theorem ignored_switch_iff (h : (pass text parse).toExcept = .ok es) (he : e ∈ switches es) :
    Ignored (findings (allRules o) es) e ↔ (switches es).getLast? ≠ some e := by
  have hnodup := switches_nodup h
  obtain ⟨hmem, hswitch⟩ := mem_switches.mp he
  rw [ignored_iff h]
  constructor
  · rintro ⟨before, e', after, rfl, hrange, hlater⟩
    obtain rfl := eq_switch_of_fullRange h he (by simp) hrange
    rw [switches_append, switches_cons hswitch] at hnodup ⊢
    exact (getLast?_ne_iff hnodup).mpr ((overridden_iff h hswitch).mp hlater)
  · intro hlast
    obtain ⟨before, after, rfl⟩ := List.append_of_mem hmem
    rw [switches_append, switches_cons hswitch] at hnodup hlast
    exact ⟨before, e, after, rfl, rfl,
      (overridden_iff h hswitch).mpr ((getLast?_ne_iff hnodup).mp hlast)⟩

end Ignored

/-- If a pass succeeds, its text is taken for a slide deck exactly if some
switch turns slide decks on, ignored or not. Ignored are all switches but the
last one. So detection follows the one that takes effect if and only if no
ignored switch turns on what that one leaves off. -/
theorem isSlideDeck_iff_switches (o : Resolved) (text : List Char) (parse : Markdown.Parser)
    (es : List Event)
    (ho : o.reports = true) (h : (pass text parse).toExcept = .ok es) :
    (isSlideDeck text = true ↔ ∃ e ∈ switches es, e.turnsOn = true) ∧
      ∃ ds, diagnose o text parse = .ok ds ∧
        (∀ e ∈ switches es, Ignored ds e ↔ (switches es).getLast? ≠ some e) ∧
        ((isSlideDeck text = true ↔ ∃ e, (switches es).getLast? = some e ∧ e.turnsOn = true) ↔
          ∀ e ∈ switches es, Ignored ds e → e.turnsOn = true →
            ∃ e', (switches es).getLast? = some e' ∧ e'.turnsOn = true) := by
  have hany : isSlideDeck text = true ↔ ∃ e ∈ switches es, e.turnsOn = true := by
    obtain ⟨-, rfl⟩ := toExcept_eq_ok h
    rw [isSlideDeck_eq_any text parse, List.any_eq_true]
    rfl
  refine ⟨hany, _, diagnose_of_events ho h, fun e he => ignored_switch_iff h he, ?_⟩
  rw [hany]
  constructor
  · intro hagree e he _ hon
    exact hagree.mp ⟨e, he, hon⟩
  · intro hignored
    constructor
    · rintro ⟨e, he, hon⟩
      by_cases hlast : (switches es).getLast? = some e
      · exact ⟨e, hlast, hon⟩
      · exact hignored e he ((ignored_switch_iff h he).mpr hlast) hon
    · rintro ⟨e, hlast, hon⟩
      exact ⟨e, List.mem_of_getLast? hlast, hon⟩

/-- A deck that is switched on in the middle, and off for good. -/
theorem isSlideDeck_iff_switches_off :
    let text := "---\nmarp: 1\nmarp: ' true '\ntheme: gaia\nmarp:\n---\n<!-- marp: true -->".toList
    let o := Options.standard.resolve
    let es := (pass text).events
    o.reports = true ∧ (pass text).toExcept = .ok es ∧ isSlideDeck text = true ∧
      (switches es).map (fun e => (e.keySpan, e.turnsOn)) =
        [(⟨4, 8⟩, false), (⟨12, 16⟩, true), (⟨39, 43⟩, false)] ∧
      ∃ ds, diagnose o text = .ok ds ∧
        ∀ e ∈ switches es, Ignored ds e ↔ (switches es).getLast? ≠ some e := by
  intro text o es
  have hfault : (pass text).fault = none := by decide +kernel
  have hpass : (pass text).toExcept = .ok es := by rw [Delivery.toExcept, hfault]
  have hswitches : (switches es).map (fun e => (e.keySpan, e.turnsOn)) =
      [(⟨4, 8⟩, false), (⟨12, 16⟩, true), (⟨39, 43⟩, false)] := by
    decide +kernel
  obtain ⟨hdeck, ds, hds, hignored, -⟩ := isSlideDeck_iff_switches o text _ es rfl hpass
  refine ⟨rfl, hpass, hdeck.mpr ?_, hswitches, ds, hds, hignored⟩
  have hmem : ((⟨12, 16⟩, true) : Span × Bool) ∈
      (switches es).map (fun e => (e.keySpan, e.turnsOn)) := by
    rw [hswitches]
    decide
  obtain ⟨e, he, heq⟩ := List.mem_map.mp hmem
  exact ⟨e, he, congrArg Prod.snd heq⟩

/-- An ignored switch turns slide decks on, and the last one off: what takes
effect does not decide. -/
theorem isSlideDeck_overridden : ¬ ∀ text es, (pass text).toExcept = .ok es →
    (isSlideDeck text = true ↔
      ∃ e, (switches es).getLast? = some e ∧ e.turnsOn = true) := by
  intro hall
  let text := "---\nmarp: true\nmarp: false\n---\n".toList
  have hfault : (pass text).fault = none := by decide +kernel
  have hpass : (pass text).toExcept = .ok (pass text).events := by rw [Delivery.toExcept, hfault]
  have hdeck : isSlideDeck text = true := by decide +kernel
  have hlast : (switches (pass text).events).getLast?.map (·.turnsOn) = some false := by
    decide +kernel
  obtain ⟨e, he, hon⟩ := (hall text _ hpass).mp hdeck
  rw [he, Option.map_some, hon] at hlast
  exact absurd hlast (by decide)

end Editor

end SlideDirectives
