import SlideDirectives.Proofs.Deck.Marks
import SlideDirectives.Proofs.Editor.Reports

/-!
# Diagnostics without a drain order

Overloaded directives are gathered by name, and the names are handed over in
any order. What comes out does not depend on it: a rule reports where a mark or
a value starts, which no two events do at one position, so sorting by range and
code leaves nothing to the order.
-/

set_option autoImplicit false

namespace SlideDirectives.Editor

open Text Deck

namespace Rule

/-- Hands over what the rule found, with the names in the order that `drain`
puts them in. -/
def finishBy (drain : List Assigned → List Assigned) : Rule → List Diagnostic × Rule
  | .overloadingGlobal assigned =>
    ((drain assigned).flatMap Assigned.overloaded, .overloadingGlobal [])
  | r => r.finish

theorem finishBy_perm {drain : List Assigned → List Assigned}
    (hdrain : ∀ as, (drain as).Perm as) (r : Rule) : (r.finishBy drain).1.Perm r.finish.1 := by
  cases r with
  | overloadingGlobal assigned => exact (hdrain assigned).flatMap_right _
  | _ => exact .refl _

/-- Where a rule reports of an event. -/
def site : RuleName → Event → Option Range
  | .unknownTheme | .unknownSize => Event.value?
  | _ => Event.mark?

theorem start_of_asked {o : Resolved} {r : RuleName} {before after : List Event} {e : Event}
    {d : Diagnostic} (h : asked o r before e after = some d) :
    ∃ x, site r e = some x ∧ d.range.start = x.start := by
  cases r with
  | overloadingGlobal =>
    obtain ⟨e', f, ⟨rfl, -⟩, -, rfl⟩ := overloadedBy_eq_some.mp h
    exact ⟨e'.fullRange, rfl, rfl⟩
  | defineMath =>
    obtain ⟨m, rfl, -, rfl⟩ := undefinedMath_eq_some.mp h
    exact ⟨m.range, rfl, rfl⟩
  | colorShorthand =>
    cases e with
    | image e =>
      obtain ⟨_, -, -, rfl⟩ := colorShorthandOf_eq_some.mp h
      exact ⟨e.range, rfl, rfl⟩
    | _ => cases h
  | unknownTheme =>
    cases e with
    | directive e =>
      obtain ⟨v, ⟨-, hv, -⟩, -, rfl⟩ := unknownThemeOf_eq_some.mp h
      exact ⟨v.range, Event.value?_eq_some.mpr ⟨e, v, rfl, hv, rfl⟩, rfl⟩
    | _ => cases h
  | unknownSize =>
    cases e with
    | directive e =>
      obtain ⟨v, ⟨-, hv, -⟩, -, rfl⟩ := unknownSizeOf_eq_some.mp h
      exact ⟨v.range, Event.value?_eq_some.mpr ⟨e, v, rfl, hv, rfl⟩, rfl⟩
    | _ => cases h
  | dollarPrefix =>
    cases e with
    | directive e =>
      obtain ⟨_, -, -, -, rfl⟩ := dollarPrefixOf_eq_some.mp h
      exact ⟨e.fullRange, rfl, rfl⟩
    | _ => cases h
  | ignoredMath =>
    cases e with
    | directive e =>
      obtain ⟨-, rfl⟩ := ignoredMathOf_eq_some.mp h
      exact ⟨e.fullRange, rfl, rfl⟩
    | _ => cases h

end Rule

/-- Diagnoses a document, with overloaded names in the order that `drain` puts
them in. -/
def diagnoseBy (drain : List Assigned → List Assigned) (o : Resolved) (text : List Char)
    (parse : Markdown.Parser := Markdown.parse .slideDeck) : Except Fault (List Diagnostic) :=
  if o.reports then
    (pass text parse).toExcept.map (fun es => Diagnostic.sort
      ((allRules o).flatMap (fun r => ((r.seeAll es).finishBy drain).1)))
  else .ok []

section Keys

variable {o : Resolved} {text : List Char} {parse : Markdown.Parser} {es : List Event}

theorem places_starts {r : RuleName}
    (h : (es.filterMap (Rule.site r)).Pairwise (fun x y => x.start.Before y.start)) :
    (places (Rule.asked o r) [] es).Pairwise
      (fun x y => x.2.range.start.Before y.2.range.start) := by
  refine (places_pairwise (R := fun d d' => d.range.start.Before d'.range.start) ?_ []
    (List.pairwise_filterMap.mp h)).imp And.right
  intro e e' d d' before after before' after' hbefore hasked hasked'
  obtain ⟨x, hx, hstart⟩ := Rule.start_of_asked hasked
  obtain ⟨y, hy, hstart'⟩ := Rule.start_of_asked hasked'
  rw [hstart, hstart']
  exact hbefore x hx y hy

/-- No two reports of a document share their range and code. -/
theorem askedAll_keys
    (hmarks : (es.filterMap Event.mark?).Pairwise (fun x y => x.start.Before y.start))
    (hvalues : (es.filterMap Event.value?).Pairwise (fun x y => x.start.Before y.start)) :
    ((askedAll o es).map Prod.snd).Pairwise (fun a b => a.sortKey ≠ b.sortKey) := by
  have hsites : ∀ r : RuleName,
      (es.filterMap (Rule.site r)).Pairwise (fun x y => x.start.Before y.start) := by
    intro r
    cases r <;> first | exact hmarks | exact hvalues
  rw [List.pairwise_map, askedAll, List.pairwise_flatMap]
  constructor
  · intro r _
    refine (places_starts (hsites r)).imp fun {x y} hbefore heq => ?_
    rw [(Diagnostic.sortKey_eq heq).1] at hbefore
    exact hbefore.irrefl
  · refine RuleName.all_nodup.imp fun {r r'} hne => ?_
    rintro ⟨i, d⟩ hd ⟨j, d'⟩ hd' heq
    have hrule := (Diagnostic.sortKey_eq heq).2
    rw [rule_of_mem_places hd, rule_of_mem_places hd'] at hrule
    exact hne hrule

theorem found_keys (h : (pass text parse).toExcept = .ok es)
    (hasked : ((askedAll o es).map Prod.snd).Pairwise (fun a b => a.sortKey ≠ b.sortKey))
    {ds : List Diagnostic} (hds : ds.Perm (findings (allRules o) es)) :
    ds.Pairwise (fun a b => a.sortKey ≠ b.sortKey) :=
  ((hds.trans (findings_askedAll (pass_events h).1)).pairwise_iff Ne.symm).mpr hasked

theorem diagnoseBy_of_events {drain : List Assigned → List Assigned}
    (hdrain : ∀ as, (drain as).Perm as) (ho : o.reports = true)
    (h : (pass text parse).toExcept = .ok es)
    (hasked : ((askedAll o es).map Prod.snd).Pairwise (fun a b => a.sortKey ≠ b.sortKey)) :
    diagnoseBy drain o text parse = .ok (findings (allRules o) es) := by
  have hperm : ((allRules o).flatMap (fun r => ((r.seeAll es).finishBy drain).1)).Perm
      ((allRules o).flatMap (fun r => (r.seeAll es).finish.1)) :=
    List.Perm.flatMap_left _ fun r _ => Rule.finishBy_perm hdrain (r.seeAll es)
  have hkeys := found_keys h hasked (hperm.trans (Diagnostic.sort_perm _).symm)
  rw [diagnoseBy, if_pos ho, h]
  refine congrArg Except.ok (Diagnostic.sort_eq_of_perm hperm ?_)
  exact fun a ha b hb heq => List.inj_on_of_nodup_map (List.pairwise_map.mpr hkeys) ha hb heq

end Keys

/-- If the nodes that events come from are disjoint and in document order, the
order in which overloaded names are handed over makes no difference. No two
diagnostics of a document share their range and code, as no two of its
directives, images and math start at one position, and no two values do. -/
theorem diagnose_drain_order (o : Resolved) (text : List Char) (parse : Markdown.Parser)
    (drain : List Assigned → List Assigned) (hdrain : ∀ as, (drain as).Perm as)
    (hfits : let s : Source := ⟨⟨text⟩, Registry.builtin⟩
      ∀ n ∈ parse.nodes s.body, s.yields n = true → n.span.Fits s.body)
    (hleaves : let s : Source := ⟨⟨text⟩, Registry.builtin⟩
      ((parse.nodes s.body).filter s.yields).Pairwise
        (fun m n => m.span.Precedes n.span)) :
    diagnoseBy drain o text parse = diagnose o text parse ∧
      (∀ ds, diagnose o text parse = .ok ds → ds.Pairwise (fun a b => a.sortKey ≠ b.sortKey)) ∧
      ((pass text parse).events.filterMap Event.mark?).Pairwise (fun x y => x.start.Before y.start) ∧
      ((pass text parse).events.filterMap Event.value?).Pairwise (fun x y => x.start.Before y.start) := by
  obtain ⟨hmarks, hvalues⟩ := Source.passWith_starts hfits hleaves
  change ((pass text parse).events.filterMap _).Pairwise _ at hmarks hvalues
  cases ho : o.reports with
  | false =>
    have hnothing : diagnose o text parse = .ok [] := by simp [diagnose, ho]
    refine ⟨by simp [diagnoseBy, hnothing, ho], fun ds hds => ?_, hmarks, hvalues⟩
    obtain rfl := Except.ok.inj (hnothing.symm.trans hds)
    exact List.Pairwise.nil
  | true =>
    cases hpass : (pass text parse).toExcept with
    | error f =>
      have hfault := diagnose_of_fault ho hpass
      refine ⟨?_, fun ds hds => ?_, hmarks, hvalues⟩
      · rw [diagnoseBy, if_pos ho, hpass, hfault]
        rfl
      · cases hfault.symm.trans hds
    | ok es =>
      have hasked : ((askedAll o es).map Prod.snd).Pairwise (fun a b => a.sortKey ≠ b.sortKey) := by
        obtain ⟨-, rfl⟩ := toExcept_eq_ok hpass
        exact askedAll_keys hmarks hvalues
      have hfound := diagnose_of_events ho hpass
      refine ⟨?_, fun ds hds => ?_, hmarks, hvalues⟩
      · rw [diagnoseBy_of_events hdrain ho hpass hasked, hfound]
      · obtain rfl := Except.ok.inj (hfound.symm.trans hds)
        exact found_keys hpass hasked (.refl _)

/-- A deck in which two names are overloaded, handed over in reverse. -/
theorem diagnose_drain_order_reversed :
    let text :=
      "---\ntheme: a\nsize: b\n---\n<!-- theme: gaia\nsize: 4:3 -->\n\n![](red) $x$".toList
    let s : Source := ⟨⟨text⟩, Registry.builtin⟩
    let o := Options.standard.resolve
    let overloading := (Rule.ofName o .overloadingGlobal).seeAll (pass text).events
    (∀ n ∈ (Markdown.parse .slideDeck).nodes s.body, s.yields n = true → n.span.Fits s.body) ∧
      (((Markdown.parse .slideDeck).nodes s.body).filter s.yields).Pairwise
        (fun m n => m.span.Precedes n.span) ∧
      (overloading.finishBy List.reverse).1 ≠ overloading.finish.1 ∧
      diagnoseBy List.reverse o text = diagnose o text ∧
      ∃ ds, diagnose o text = .ok ds ∧ ds.length = 6 ∧
        ds.Pairwise (fun a b => a.sortKey ≠ b.sortKey) := by
  intro text s o overloading
  have hfits : ∀ n ∈ (Markdown.parse .slideDeck).nodes s.body, s.yields n = true → n.span.Fits s.body := by
    decide +kernel
  have hleaves : (((Markdown.parse .slideDeck).nodes s.body).filter s.yields).Pairwise
      (fun m n => m.span.Precedes n.span) := by
    decide +kernel
  have hfault : (pass text).fault = none := by decide +kernel
  have hpass : (pass text).toExcept = .ok (pass text).events := by rw [Delivery.toExcept, hfault]
  have hdiagnose := diagnose_of_events (o := o) rfl hpass
  obtain ⟨hsame, hkeys, -⟩ :=
    diagnose_drain_order o text _ List.reverse List.reverse_perm hfits hleaves
  refine ⟨hfits, hleaves, by decide +kernel, hsame, _, hdiagnose, ?_, hkeys _ hdiagnose⟩
  rw [length_findings]
  decide +kernel

end SlideDirectives.Editor
