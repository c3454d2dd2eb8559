import SlideDirectives.Editor.Annotation
import SlideDirectives.Editor.Hover
import SlideDirectives.Proofs.Deck.KeyGaps
import SlideDirectives.Proofs.Editor.Reports

/-!
# Help and annotations

Keys do not touch each other, so a position is at one key at most and the first
directive that help finds there is the only one. Help answers for the directives
that are annotated and no others, each from where its annotation starts.
-/

set_option autoImplicit false

namespace SlideDirectives.Editor

open Text Deck

section Keys

variable {ds : List DirectiveEvent} {p : Position}

/-- The keys of the directives stop in front of each other. -/
def KeysApart (ds : List DirectiveEvent) : Prop :=
  ds.Pairwise (fun d d' => d.key.range.stop.Before d'.key.range.start)

theorem KeysApart.length_at (h : KeysApart ds) (p : Position) :
    (ds.filter (·.key.range.contains p)).length ≤ 1 :=
  Range.length_at h p

theorem KeysApart.eq_of_contains (h : KeysApart ds) {d d' : DirectiveEvent} (hd : d ∈ ds)
    (hd' : d' ∈ ds) (hp : d.key.range.contains p = true) (hp' : d'.key.range.contains p = true) :
    d = d' := by
  have hlength := h.length_at p
  have hmem : d ∈ ds.filter (·.key.range.contains p) := List.mem_filter.mpr ⟨hd, hp⟩
  have hmem' : d' ∈ ds.filter (·.key.range.contains p) := List.mem_filter.mpr ⟨hd', hp'⟩
  obtain ⟨x, hx⟩ := List.length_eq_one_iff.mp
    (Nat.le_antisymm hlength (List.length_pos_of_mem hmem))
  rw [hx, List.mem_singleton] at hmem hmem'
  rw [hmem, hmem']

end Keys

section Answers

variable {es : List Event} {p : Position}

theorem hover_eq_some (h : KeysApart (es.filterMap Event.directive?)) {x : Hover} :
    Hover.ofEvents p es = some x ↔ ∃ d ∈ es.filterMap Event.directive?,
      d.key.range.contains p = true ∧
        ∃ f, d.definition = some f ∧ x = ⟨Hover.describe f d, d.key.range⟩ := by
  simp only [Hover.ofEvents, Option.bind_eq_bind, Option.bind_eq_some_iff, Option.some.injEq]
  constructor
  · rintro ⟨d, hfind, f, hf, rfl⟩
    have hat := List.find?_some hfind
    rw [Hover.isAt, Bool.and_eq_true] at hat
    exact ⟨d, List.mem_of_find?_eq_some hfind, hat.2, f, hf, rfl⟩
  · rintro ⟨d, hd, hp, f, hf, rfl⟩
    have hat : Hover.isAt p d = true := by rw [Hover.isAt, hf, hp]; rfl
    cases hfind : (es.filterMap Event.directive?).find? (Hover.isAt p) with
    | none => exact absurd hat (List.find?_eq_none.mp hfind d hd)
    | some d' =>
      have hat' := List.find?_some hfind
      rw [Hover.isAt, Bool.and_eq_true] at hat'
      obtain rfl := h.eq_of_contains hd (List.mem_of_find?_eq_some hfind) hp hat'.2
      exact ⟨d, rfl, f, hf, rfl⟩

namespace Annotation

theorem starts_ofEvents (es : List Event) :
    (ofEvents es).map (·.range.start) =
      ((es.filterMap Event.directive?).filter (·.definition.isSome)).map (·.key.range.start) := by
  rw [ofEvents]
  induction es.filterMap Event.directive? with
  | nil => rfl
  | cons d ds ih =>
    cases hd : d.definition with
    | none =>
      have hnone : ofDirective? d = none := by
        rw [ofDirective?, hd]
        rfl
      rw [List.filterMap_cons_none hnone, ih, List.filter_cons_of_neg (by simp [hd])]
    | some f =>
      have hsome : ofDirective? d = some ⟨f.name, kindOf f d.isScoped, d.fullRange⟩ := by
        rw [ofDirective?, hd]
        rfl
      rw [List.filterMap_cons_some hsome, List.map_cons, ih, List.filter_cons_of_pos (by simp [hd])]
      rfl

theorem mem_ofEvents {a : Annotation} : a ∈ ofEvents es ↔
    ∃ d ∈ es.filterMap Event.directive?, ∃ f, d.definition = some f ∧
      a = ⟨f.name, kindOf f d.isScoped, d.fullRange⟩ := by
  rw [ofEvents, List.mem_filterMap]
  constructor
  · rintro ⟨d, hd, ha⟩
    obtain ⟨f, hf, rfl⟩ := Option.map_eq_some_iff.mp ha
    exact ⟨d, hd, f, hf, rfl⟩
  · rintro ⟨d, hd, f, hf, rfl⟩
    exact ⟨d, hd, Option.map_eq_some_iff.mpr ⟨f, hf, rfl⟩⟩

end Annotation

end Answers

section Documents

variable {text : List Char} {parse : Markdown.Parser} {es : List Event}

theorem hover_of_events (h : (pass text parse).toExcept = .ok es) (p : Position) :
    hover text p parse = .ok (Hover.ofEvents p es) := by
  rw [hover, h]
  rfl

theorem hover_eq_ok (h : (pass text parse).toExcept = .ok es) {p : Position} {answer : Option Hover} :
    hover text p parse = .ok answer ↔ Hover.ofEvents p es = answer := by
  rw [hover_of_events h, Except.ok.injEq]

theorem Annotation.annotate_of_events (h : (pass text parse).toExcept = .ok es) :
    annotate text parse = .ok (ofEvents es) := by
  rw [annotate, h]
  rfl

structure Reached (d : DirectiveEvent) : Prop where
  key : d.key.range.start.le d.key.range.stop = true
  stop : d.key.range.stop.le d.fullRange.stop = true

theorem Reached.contains_start {d : DirectiveEvent} (h : Reached d) :
    d.key.range.contains d.key.range.start = true := by
  rw [Range.contains, h.key, Bool.and_true, Position.le_iff]
  exact Position.Before.irrefl

theorem Annotation.starts_in_order (hapart : KeysApart (es.filterMap Event.directive?))
    (hreached : ∀ d ∈ es.filterMap Event.directive?, Reached d) :
    ((ofEvents es).map (·.range.start)).Pairwise Position.Before := by
  rw [starts_ofEvents, List.pairwise_map]
  apply List.Pairwise.filter
  apply hapart.imp_of_mem
  intro d d' hd _ hbefore
  exact Position.Before.of_le (hreached d hd).key hbefore

theorem annotated_of_hover (hapart : KeysApart (es.filterMap Event.directive?))
    (hreached : ∀ d ∈ es.filterMap Event.directive?, Reached d) {p : Position} {x : Hover}
    (h : Hover.ofEvents p es = some x) :
    ∃ a ∈ Annotation.ofEvents es, a.range.start = x.range.start ∧
      x.range.stop.le a.range.stop = true ∧ Hover.ofEvents a.range.start es = some x := by
  obtain ⟨d, hd, -, f, hf, rfl⟩ := (hover_eq_some hapart).mp h
  refine ⟨_, Annotation.mem_ofEvents.mpr ⟨d, hd, f, hf, rfl⟩, rfl, (hreached d hd).stop, ?_⟩
  exact (hover_eq_some hapart).mpr ⟨d, hd, (hreached d hd).contains_start, f, hf, rfl⟩

theorem hover_of_annotated (hapart : KeysApart (es.filterMap Event.directive?))
    (hreached : ∀ d ∈ es.filterMap Event.directive?, Reached d) {a : Annotation}
    (h : a ∈ Annotation.ofEvents es) :
    ∃ x, Hover.ofEvents a.range.start es = some x ∧ x.range.start = a.range.start ∧
      x.range.stop.le a.range.stop = true := by
  obtain ⟨d, hd, f, hf, rfl⟩ := Annotation.mem_ofEvents.mp h
  refine ⟨_, (hover_eq_some hapart).mpr ⟨d, hd, (hreached d hd).contains_start, f, hf, rfl⟩, rfl, ?_⟩
  exact (hreached d hd).stop

/-- If the nodes that events come from are disjoint and in document order, at
most one directive has its key at a position, whether or not the document has
such a position, and help is what describes that directive if it is known. The
known directives are annotated once each, in order. Help answers at the start of
each annotation, from there and up to its end or less, and whatever it answers
is what it answers at the start of some annotation. -/
theorem hover_annotated (text : List Char) (parse : Markdown.Parser)
    (hfits : let s : Source := ⟨⟨text⟩, Registry.builtin⟩
      ∀ n ∈ parse.nodes s.body, s.yields n = true → n.span.Fits s.body)
    (hleaves : let s : Source := ⟨⟨text⟩, Registry.builtin⟩
      ((parse.nodes s.body).filter s.yields).Pairwise
        (fun m n => m.span.Precedes n.span))
    (hpass : (pass text parse).toExcept = .ok es) :
    let ds := es.filterMap Event.directive?
    ∃ marks, annotate text parse = .ok marks ∧
      (∀ p, (ds.filter (·.key.range.contains p)).length ≤ 1) ∧
      (∀ p, ∃ answer, hover text p parse = .ok answer ∧ ∀ x, answer = some x ↔
        ∃ d ∈ ds, d.key.range.contains p = true ∧
          ∃ f, d.definition = some f ∧ x = ⟨Hover.describe f d, d.key.range⟩) ∧
      marks.map (·.range.start) = (ds.filter (·.definition.isSome)).map (·.key.range.start) ∧
      (marks.map (·.range.start)).Pairwise Position.Before ∧
      (∀ q, q ∈ marks.map (·.range.start) ↔
        ∃ p x, hover text p parse = .ok (some x) ∧ x.range.start = q) ∧
      (∀ a ∈ marks, ∃ x, hover text a.range.start parse = .ok (some x) ∧
        x.range.start = a.range.start ∧ x.range.stop.le a.range.stop = true) ∧
      ∀ p x, hover text p parse = .ok (some x) → ∃ a ∈ marks, a.range.start = x.range.start ∧
        x.range.stop.le a.range.stop = true ∧ hover text a.range.start parse = .ok (some x) := by
  intro ds
  obtain ⟨hkeys, hends⟩ := Source.passWith_keys hfits hleaves
  have hevents : (Source.passWith parse ⟨⟨text⟩, Registry.builtin⟩).events =
      es := (toExcept_eq_ok hpass).2
  rw [hevents] at hkeys hends
  have hapart : KeysApart ds := hkeys
  have hreached : ∀ d ∈ ds, Reached d := fun d hd => ⟨(hends d hd).1, (hends d hd).2⟩
  simp only [hover_eq_ok hpass]
  refine ⟨_, Annotation.annotate_of_events hpass, hapart.length_at, ?_, Annotation.starts_ofEvents es,
    Annotation.starts_in_order hapart hreached, ?_, ?_, ?_⟩
  · intro p
    exact ⟨_, rfl, fun x => hover_eq_some hapart⟩
  · intro q
    constructor
    · intro hq
      obtain ⟨a, ha, rfl⟩ := List.mem_map.mp hq
      obtain ⟨x, hx, hstart, -⟩ := hover_of_annotated hapart hreached ha
      exact ⟨a.range.start, x, hx, hstart⟩
    · rintro ⟨p, x, hx, rfl⟩
      obtain ⟨a, ha, hstart, -⟩ := annotated_of_hover hapart hreached hx
      exact List.mem_map.mpr ⟨a, ha, hstart⟩
  · intro a ha
    exact hover_of_annotated hapart hreached ha
  · intro p x hx
    exact annotated_of_hover hapart hreached hx

/-- Two comments on one line, a key that is not known, and a position behind the
last line. -/
theorem hover_annotated_one_line :
    let text :=
      "---\ntheme: a\nfoo: b\n---\n<!-- _class: x --><!-- header: -->\n\n![](u)".toList
    let s : Source := ⟨⟨text⟩, Registry.builtin⟩
    let ds := (pass text).events.filterMap Event.directive?
    (∀ n ∈ (Markdown.parse .slideDeck).nodes s.body, s.yields n = true → n.span.Fits s.body) ∧
      (((Markdown.parse .slideDeck).nodes s.body).filter s.yields).Pairwise
        (fun m n => m.span.Precedes n.span) ∧
      (pass text).toExcept = .ok (pass text).events ∧
      ds.map (·.key.range.start) = [⟨1, 0⟩, ⟨2, 0⟩, ⟨4, 5⟩, ⟨4, 23⟩] ∧
      ∃ marks, annotate text = .ok marks ∧
        marks.map (·.range.start) = [⟨1, 0⟩, ⟨4, 5⟩, ⟨4, 23⟩] ∧
        (∀ a ∈ marks, ∃ x, hover text a.range.start = .ok (some x) ∧
          x.range.start = a.range.start) ∧
        ∀ p ∈ [(⟨2, 1⟩ : Position), ⟨9, 0⟩], hover text p = .ok none := by
  intro text s ds
  have hfits : ∀ n ∈ (Markdown.parse .slideDeck).nodes s.body, s.yields n = true → n.span.Fits s.body := by
    decide +kernel
  have hleaves : (((Markdown.parse .slideDeck).nodes s.body).filter s.yields).Pairwise
      (fun m n => m.span.Precedes n.span) := by
    decide +kernel
  have hread : (pass text).fault = none ∧
      ds.map (·.key.range.start) = [⟨1, 0⟩, ⟨2, 0⟩, ⟨4, 5⟩, ⟨4, 23⟩] ∧
      (ds.filter (·.definition.isSome)).map (·.key.range.start) = [⟨1, 0⟩, ⟨4, 5⟩, ⟨4, 23⟩] ∧
      ∀ p ∈ [(⟨2, 1⟩ : Position), ⟨9, 0⟩], ∀ d ∈ ds, d.key.range.contains p = true →
        d.definition = none := by
    decide +kernel
  obtain ⟨hfault, hkeys, hknown, hnone⟩ := hread
  have hpass : (pass text).toExcept = .ok (pass text).events := by rw [Delivery.toExcept, hfault]
  obtain ⟨marks, hmarks, -, hanswers, hstarts, -, -, hannotated, -⟩ :=
    hover_annotated text _ hfits hleaves hpass
  refine ⟨hfits, hleaves, hpass, hkeys, marks, hmarks, hstarts.trans hknown, ?_, ?_⟩
  · intro a ha
    obtain ⟨x, hx, hstart, -⟩ := hannotated a ha
    exact ⟨x, hx, hstart⟩
  · intro p hp
    obtain ⟨answer, hanswer, hsome⟩ := hanswers p
    rw [hanswer]
    cases answer with
    | none => rfl
    | some x =>
      obtain ⟨d, hd, hat, f, hf, -⟩ := (hsome x).mp rfl
      rw [hnone p hp d hd hat] at hf
      cases hf

end Documents

end SlideDirectives.Editor
