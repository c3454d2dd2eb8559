import SlideDirectives.Proofs.Deck.Shift
import SlideDirectives.Proofs.Text.PositionOrder
import SlideDirectives.Proofs.Yaml.PairOrder

/-!
# Document order

If the nodes of the body are found in document order, so are all events: their
spans follow each other, bodies lie in contents and contents in comments, and
the directives of a body stand in it one after the other. A list of events is
in order between two bytes; such lists are put behind each other.
-/

set_option autoImplicit false

namespace SlideDirectives

open Text

namespace Text.Span

/-- The span ends where the other one starts, or before, and starts earlier. -/
structure Precedes (s t : Span) : Prop where
  start : s.start < t.start
  stop : s.stop ≤ t.start

instance (s t : Span) : Decidable (s.Precedes t) :=
  decidable_of_iff (s.start < t.start ∧ s.stop ≤ t.start) ⟨fun h => ⟨h.1, h.2⟩, fun h => ⟨h.1, h.2⟩⟩

/-- The span lies in the other one. -/
structure Within (s t : Span) : Prop where
  start : t.start ≤ s.start
  ordered : s.start ≤ s.stop
  stop : s.stop ≤ t.stop

theorem Within.trans {s t u : Span} (h : s.Within t) (h' : t.Within u) : s.Within u :=
  ⟨Nat.le_trans h'.start h.start, h.ordered, Nat.le_trans h.stop h'.stop⟩

end Text.Span

namespace Deck

namespace Event

/-- The span of an event that stands for a part of the document on its own. -/
def extent? : Event → Option Span
  | .frontMatter e => some e.range.span
  | .comment e => some e.range.span
  | .image e => some e.range.span
  | .maybeMath e => some e.range.span
  | _ => none

/-- The span that directives behind the event are read from. -/
def body? : Event → Option Span
  | .frontMatter e => some e.bodyRange.span
  | .comment e => some e.bodyRange.span
  | _ => none

def Nested : Event → Prop
  | .frontMatter e => e.bodyRange.span.Within e.range.span
  | .comment e => e.bodyRange.span.Within e.contentRange.span ∧
      e.contentRange.span.Within e.range.span
  | _ => True

end Event

def leading : List Event → List DirectiveEvent
  | .directive d :: es => d :: leading es
  | _ => []

def bodies : List Event → List (Span × List DirectiveEvent)
  | [] => []
  | e::es =>
    match e.body? with
    | some body => (body, leading es) :: bodies es
    | none => bodies es

namespace DirectiveEvent

def keySpan (d : DirectiveEvent) : Span :=
  d.key.range.span

structure Inside (d : DirectiveEvent) (body : Span) : Prop where
  start : body.start ≤ d.keySpan.start
  key : d.keySpan.start < d.keySpan.stop
  value : ∀ v, d.value = some v →
    d.keySpan.stop < v.range.span.start ∧ v.range.span.Within body
  stop : d.fullRange.span.stop ≤ body.stop

theorem Inside.key_le {d : DirectiveEvent} {body : Span} (h : d.Inside body) :
    d.keySpan.stop ≤ d.fullRange.span.stop := by
  cases hvalue : d.value with
  | none => simp [fullRange, keySpan, hvalue]
  | some v =>
    obtain ⟨hstart, hwithin⟩ := h.value v hvalue
    have hordered := hwithin.ordered
    simp only [fullRange, hvalue, Option.map_some, Option.getD_some]
    omega

end DirectiveEvent

/-- The directives lie in the body, each one before the key of the next. -/
structure BodyInOrder (body : Span) (ds : List DirectiveEvent) : Prop where
  inside : ∀ d ∈ ds, d.Inside body
  spaced : ds.Pairwise (fun d d' => d.fullRange.span.stop < d'.keySpan.start)

section Lists

variable {es es' : List Event}

theorem leading_append (h : leading es' = []) : leading (es ++ es') = leading es := by
  induction es with
  | nil => exact h
  | cons e es ih =>
    cases e with
    | directive d =>
      rw [List.cons_append, leading, leading, ih]
    | _ => rfl

theorem bodies_append (h : leading es' = []) : bodies (es ++ es') = bodies es ++ bodies es' := by
  induction es with
  | nil => rfl
  | cons e es ih =>
    rw [List.cons_append, bodies, bodies, ih, leading_append h]
    cases e.body? <;> rfl

theorem leading_directives (ds : List DirectiveEvent) : leading (ds.map .directive) = ds := by
  induction ds with
  | nil => rfl
  | cons d ds ih => rw [List.map_cons, leading, ih]

theorem bodies_directives (ds : List DirectiveEvent) : bodies (ds.map .directive) = [] := by
  induction ds with
  | nil => rfl
  | cons d ds ih => exact ih

theorem filterMap_directive? (ds : List DirectiveEvent) :
    (ds.map Event.directive).filterMap Event.directive? = ds := by
  induction ds with
  | nil => rfl
  | cons d ds ih =>
    have hd : Event.directive? (.directive d) = some d := rfl
    rw [List.map_cons, List.filterMap_cons_some hd, ih]

theorem mem_filterMap_directive? {d : DirectiveEvent} :
    d ∈ es.filterMap Event.directive? ↔ .directive d ∈ es := by
  rw [List.mem_filterMap]
  constructor
  · rintro ⟨e, he, hd⟩
    cases e with
    | directive d' =>
      obtain rfl := Option.some.inj hd
      exact he
    | _ => cases hd
  · intro h
    exact ⟨_, h, rfl⟩

theorem filterMap_extent? (ds : List DirectiveEvent) :
    (ds.map Event.directive).filterMap Event.extent? = [] := by
  induction ds with
  | nil => rfl
  | cons d ds ih => rw [List.map_cons, List.filterMap_cons_none rfl, ih]

end Lists

/-- The events stand in the document in their order, from byte `first` on and
before byte `limit`. -/
structure InOrder (es : List Event) (first limit : Nat) : Prop where
  fresh : leading es = []
  extents : (es.filterMap Event.extent?).Pairwise Span.Precedes
  placed : ∀ x ∈ es.filterMap Event.extent?, first ≤ x.start ∧ x.start < limit ∧ x.stop ≤ limit
  nested : ∀ e ∈ es, e.Nested
  bodies : ∀ b ∈ bodies es, BodyInOrder b.1 b.2
  covered : es.filterMap Event.directive? = (Deck.bodies es).flatMap Prod.snd
  keys : (es.filterMap Event.directive?).Pairwise (fun d d' => d.keySpan.start < d'.keySpan.start)
  keysPlaced : ∀ d ∈ es.filterMap Event.directive?,
    first ≤ d.keySpan.start ∧ d.keySpan.start < limit

namespace InOrder

variable {es es' : List Event} {first middle limit : Nat}

theorem nil (first limit : Nat) : InOrder [] first limit := by
  constructor <;> simp [leading, Deck.bodies]

theorem mono {m n : Nat} (h : InOrder es first limit) (hm : m ≤ first) (hn : limit ≤ n) :
    InOrder es m n := by
  refine ⟨h.fresh, h.extents, ?_, h.nested, h.bodies, h.covered, h.keys, ?_⟩
  · intro x hx
    have hplaced := h.placed x hx
    omega
  · intro d hd
    have hplaced := h.keysPlaced d hd
    omega

theorem append (h : InOrder es first middle) (h' : InOrder es' middle limit)
    (hf : first ≤ middle) (hl : middle ≤ limit) : InOrder (es ++ es') first limit := by
  have hfirst := h.mono (Nat.le_refl first) hl
  have hlast := h'.mono hf (Nat.le_refl limit)
  constructor
  case fresh => rw [leading_append h'.fresh, h.fresh]
  case extents =>
    rw [List.filterMap_append, List.pairwise_append]
    refine ⟨h.extents, h'.extents, fun x hx y hy => ?_⟩
    have hx := h.placed x hx
    have hy := h'.placed y hy
    exact ⟨by omega, by omega⟩
  case placed =>
    rw [List.filterMap_append]
    intro x hx
    exact (List.mem_append.mp hx).elim (hfirst.placed x) (hlast.placed x)
  case nested =>
    intro e he
    exact (List.mem_append.mp he).elim (h.nested e) (h'.nested e)
  case bodies =>
    rw [bodies_append h'.fresh]
    intro b hb
    exact (List.mem_append.mp hb).elim (h.bodies b) (h'.bodies b)
  case covered =>
    rw [bodies_append h'.fresh, List.filterMap_append, List.flatMap_append, h.covered, h'.covered]
  case keys =>
    rw [List.filterMap_append, List.pairwise_append]
    refine ⟨h.keys, h'.keys, fun d hd d' hd' => ?_⟩
    have hd := h.keysPlaced d hd
    have hd' := h'.keysPlaced d' hd'
    omega
  case keysPlaced =>
    rw [List.filterMap_append]
    intro d hd
    exact (List.mem_append.mp hd).elim (hfirst.keysPlaced d) (hlast.keysPlaced d)

theorem single {e : Event} (hbody : e.body? = none) (hdirective : e.directive? = none)
    (hnested : e.Nested)
    (hplaced : ∀ x, e.extent? = some x → first ≤ x.start ∧ x.start < limit ∧ x.stop ≤ limit) :
    InOrder [e] first limit := by
  have hleading : leading [e] = [] := by
    cases e <;> first | rfl | cases hdirective
  have hbodies : Deck.bodies [e] = [] := by
    rw [Deck.bodies, hbody]
    rfl
  have hdirectives : [e].filterMap Event.directive? = [] := by
    rw [List.filterMap_cons_none hdirective]
    rfl
  constructor
  case fresh => exact hleading
  case extents => cases hx : e.extent? <;> simp [hx]
  case placed =>
    intro x hx
    obtain ⟨e', he', hextent⟩ := List.mem_filterMap.mp hx
    obtain rfl := List.mem_singleton.mp he'
    exact hplaced x hextent
  case nested =>
    intro e' he'
    obtain rfl := List.mem_singleton.mp he'
    exact hnested
  case bodies => simp [hbodies]
  case covered =>
    rw [hbodies, hdirectives]
    rfl
  case keys =>
    rw [hdirectives]
    exact List.Pairwise.nil
  case keysPlaced => simp [hdirectives]

theorem withBody {e : Event} {x body : Span} {ds : List DirectiveEvent}
    (hx : e.extent? = some x) (hb : e.body? = some body) (hn : e.Nested) (hlt : x.start < x.stop)
    (hwithin : body.Within x) (hds : BodyInOrder body ds) :
    InOrder (e :: ds.map .directive) x.start x.stop := by
  have hdirective : e.directive? = none := by
    cases e <;> first | rfl | cases hx
  have hleading : leading (e :: ds.map .directive) = [] := by
    cases e <;> first | rfl | cases hx
  have hbodies : Deck.bodies (e :: ds.map .directive) = [(body, ds)] := by
    rw [Deck.bodies, hb]
    simp only [leading_directives, bodies_directives]
  have hextents : (e :: ds.map .directive).filterMap Event.extent? = [x] := by
    rw [List.filterMap_cons_some hx, filterMap_extent?]
  have hdirectives : (e :: ds.map .directive).filterMap Event.directive? = ds := by
    rw [List.filterMap_cons_none hdirective, filterMap_directive?]
  constructor
  case fresh => exact hleading
  case extents =>
    rw [hextents]
    exact List.pairwise_singleton _ _
  case placed =>
    rw [hextents]
    intro y hy
    obtain rfl := List.mem_singleton.mp hy
    exact ⟨Nat.le_refl _, hlt, Nat.le_refl _⟩
  case nested =>
    intro e' he'
    rcases List.mem_cons.mp he' with rfl | he'
    · exact hn
    · obtain ⟨d, -, rfl⟩ := List.mem_map.mp he'
      trivial
  case bodies =>
    rw [hbodies]
    intro b hb
    obtain rfl := List.mem_singleton.mp hb
    exact hds
  case covered =>
    rw [hbodies, hdirectives]
    simp
  case keys =>
    rw [hdirectives]
    refine hds.spaced.imp_of_mem fun {d d'} hd _ hspaced => ?_
    have hinside := hds.inside d hd
    have hkey := hinside.key
    have hstop := hinside.key_le
    omega
  case keysPlaced =>
    rw [hdirectives]
    intro d hd
    have hinside := hds.inside d hd
    have hstart := hinside.start
    have hkey := hinside.key
    have hstop := hinside.key_le
    have hbody := hinside.stop
    have hfirst := hwithin.start
    have hlast := hwithin.stop
    omega

theorem join {α : Type} {xs : List α} {part : α → Delivery} (span : α → Span)
    (hpart : ∀ x ∈ xs, InOrder (part x).events (span x).start (span x).stop)
    (hspan : ∀ x ∈ xs, (span x).Within ⟨first, limit⟩)
    (hapart : xs.Pairwise (fun x y => (span x).stop ≤ (span y).start)) :
    InOrder (Delivery.join (xs.map part)).events first limit := by
  induction xs generalizing first with
  | nil => exact nil first limit
  | cons x xs ih =>
    obtain ⟨hnext, hrest⟩ := List.pairwise_cons.mp hapart
    have hx := hspan x List.mem_cons_self
    have hpartx := (hpart x List.mem_cons_self).mono hx.start (Nat.le_refl _)
    have hfirst : first ≤ (span x).stop := Nat.le_trans hx.start hx.ordered
    have hjoin : InOrder (Delivery.join (xs.map part)).events (span x).stop limit :=
      ih (fun y hy => hpart y (List.mem_cons_of_mem x hy))
        (fun y hy => ⟨hnext y hy, (hspan y (List.mem_cons_of_mem x hy)).ordered,
          (hspan y (List.mem_cons_of_mem x hy)).stop⟩) hrest
    -- A fault ends the delivery with this part, which is in order all the same.
    rw [List.map_cons, Delivery.join, Delivery.append]
    split
    · exact hpartx.mono (Nat.le_refl _) hx.stop
    · exact hpartx.append hjoin hfirst hx.stop

end InOrder

namespace Source

variable {s : Source}

theorem stop_fullRange (offset : Nat) (context : Context) (p : Yaml.Pair) :
    (s.directive offset context p).fullRange.span.stop = p.stop + offset := by
  cases hvalue : p.value <;>
    simp [directive, DirectiveEvent.fullRange, ranged, Document.rangeOf, Yaml.Pair.stop, hvalue,
      Span.shift]

theorem directives_in_order (offset : Nat) (context : Context) (body : List Char) :
    ∃ ds : List DirectiveEvent, s.directives offset context body = ds.map .directive ∧
      BodyInOrder ⟨offset, offset + byteSize body⟩ ds := by
  refine ⟨(Yaml.Outline.read body).pairs.map (s.directive offset context), ?_, ?_, ?_⟩
  · rw [directives, List.map_map]
    rfl
  · intro d hd
    obtain ⟨p, hp, rfl⟩ := List.mem_map.mp hd
    have hlies := Yaml.Outline.pairs_lie hp
    have hkey := hlies.key_lt
    have hle := hlies.key_le
    constructor
    · exact Nat.le_add_left _ _
    · exact Nat.add_lt_add_right hkey offset
    · intro v hv
      obtain ⟨item, hitem, rfl⟩ := Option.map_eq_some_iff.mp hv
      have hapart := hlies.apart item hitem
      obtain ⟨hordered, hstop⟩ := hlies.value_le item hitem
      refine ⟨Nat.add_lt_add_right hapart offset, Nat.le_add_left _ _,
        Nat.add_le_add_right hordered offset, ?_⟩
      rw [Nat.add_comm offset]
      exact Nat.add_le_add_right hstop offset
    · rw [stop_fullRange, Nat.add_comm offset]
      exact Nat.add_le_add_right hlies.stop_le offset
  · rw [List.pairwise_map]
    refine (Yaml.Outline.pairs_spaced Yaml.decode body).imp ?_
    intro p q hpq
    rw [stop_fullRange]
    exact Nat.add_lt_add_right hpq offset

theorem frontMatter_in_order {f : FrontMatter} (h : s.front? = some f) :
    InOrder (s.frontMatter f) 0 s.bodyStart := by
  obtain ⟨hspan, hbody, hstop⟩ := FrontMatter.find?_holds h
  obtain ⟨opening, _, _, _, -, hf, -⟩ := FrontMatter.find?_parts h
  have hpos := FrontMatter.find?_pos h
  have hstart : f.span.start = 0 := by rw [hf]
  have hbodyStart : s.bodyStart = f.span.stop := by rw [bodyStart, h]; rfl
  have hwithin : f.body.Within f.span := ⟨by omega, hbody.ordered, hstop⟩
  obtain ⟨ds, hds, hinside⟩ :=
    s.directives_in_order f.body.start .frontMatter (s.document.textIn f.body)
  rw [Document.textIn, hbody.start_add_byteSize] at hinside
  have horder := InOrder.withBody (e := .frontMatter ⟨s.document.rangeOf f.span,
    s.document.textIn f.body, s.document.rangeOf f.body⟩) (x := f.span) rfl rfl hwithin (by omega)
    hwithin hinside
  rw [frontMatter, hbodyStart, hds, ← hstart]
  exact horder

theorem comment_in_order {span : Span} {c : Html.Comment} (h : span.Fits s.document.text)
    (hc : c.Fits (slice s.document.text span)) :
    InOrder (s.comment span.start c) (c.span.shift span.start).start
      (c.span.shift span.start).stop := by
  have hcontent := h.holds.shift hc.content.holds
  have htext : s.document.textIn (c.content.shift span.start) =
      slice (slice s.document.text span) c.content := hcontent.slice_eq
  have hsize := hc.content.start_add_byteSize
  have hordered := hc.content.ordered
  have hopens := hc.opens
  have hcloses := hc.closes
  simp only [comment, htext]
  generalize slice (slice s.document.text span) c.content = content at hsize ⊢
  have hstripped := (Html.stripPadding_holds content).fits
  generalize Html.stripPadding content = stripped at hstripped ⊢
  obtain ⟨padding, body⟩ := stripped
  obtain ⟨ds, hds, hinside⟩ :=
    s.directives_in_order ((c.content.shift span.start).start + padding) .comment body
  have hbody := hstripped.bounded
  have hinner : Span.Within ⟨(c.content.shift span.start).start + padding,
      (c.content.shift span.start).start + padding + byteSize body⟩ (c.content.shift span.start) :=
    ⟨Nat.le_add_right _ _, Nat.le_add_right _ _, by simp only [Span.shift] at *; omega⟩
  have houter : (c.content.shift span.start).Within (c.span.shift span.start) :=
    ⟨by simp only [Span.shift]; omega, by simp only [Span.shift]; omega,
      by simp only [Span.shift]; omega⟩
  rw [hds]
  exact InOrder.withBody rfl rfl ⟨hinner, houter⟩ (by simp only [Span.shift]; omega)
    (hinner.trans houter) hinside

theorem fragment_in_order {span : Span} (h : span.Fits s.document.text) :
    InOrder (s.fragment span).events span.start span.stop := by
  rw [fragment]
  cases hcs : Html.comments (s.document.textIn span) with
  | error tag => exact InOrder.nil _ _
  | ok cs =>
    have hfits := Html.comments_fit hcs
    have hsize := h.start_add_byteSize
    simp only
    rw [← Delivery.join_ofEvents]
    apply InOrder.join (fun c => c.span.shift span.start)
    · exact fun c hc => comment_in_order h (hfits c hc)
    · intro c hc
      have hspan := (hfits c hc).span
      have hordered := hspan.ordered
      have hbounded := hspan.bounded
      rw [Document.textIn] at hbounded
      exact ⟨Nat.le_add_left _ _, Nat.add_le_add_right hordered _,
        by simp only [Span.shift]; omega⟩
    · exact (Html.comments_ordered hcs).imp fun hab => Nat.add_le_add_right hab _

def extent (offset : Nat) (n : Markdown.Node) : Span :=
  let span := n.span.shift offset
  ⟨span.start, max (span.start + 1) span.stop⟩

theorem node_in_order {offset : Nat} {n : Markdown.Node}
    (h : (n.span.shift offset).Fits s.document.text) :
    InOrder (s.node offset n).events (extent offset n).start (extent offset n).stop := by
  have hstart : (n.span.shift offset).start < (extent offset n).stop := by
    simp only [extent]
    omega
  have hstop : (n.span.shift offset).stop ≤ (extent offset n).stop := by
    simp only [extent]
    omega
  have hplaced : ∀ {e : Event}, e.body? = none → e.directive? = none → e.Nested →
      e.extent? = some (n.span.shift offset) →
      InOrder [e] (extent offset n).start (extent offset n).stop := by
    intro e hbody hdirective hnested hextent
    refine InOrder.single hbody hdirective hnested fun x hx => ?_
    obtain rfl := Option.some.inj (hextent.symm.trans hx)
    exact ⟨Nat.le_refl _, hstart, hstop⟩
  cases n with
  | html span => exact (fragment_in_order h).mono (Nat.le_refl _) hstop
  | image span image => exact hplaced rfl rfl trivial rfl
  | math span => exact hplaced rfl rfl trivial rfl
  | inlineMath span =>
    simp only [node, Delivery.ofEvents, inlineMath]
    split
    · exact hplaced rfl rfl trivial rfl
    · exact InOrder.nil _ _

theorem front_in_order (s : Source) :
    InOrder ((s.front?.map s.frontMatter).getD []) 0 s.bodyStart := by
  cases h : s.front? with
  | none => exact InOrder.nil _ _
  | some f => exact frontMatter_in_order h

theorem inner_in_order {parse : Markdown.Parser}
    (h : ∀ n ∈ parse.nodes s.body, n.span.Fits s.body)
    (hleaves : (parse.nodes s.body).Pairwise (fun m n => m.span.Precedes n.span)) :
    InOrder (s.inner parse).events s.bodyStart (byteSize s.document.text + 1) := by
  rcases inner_cases parse s with hinner | ⟨-, m, hinner⟩
  case inr =>
    rw [hinner]
    exact InOrder.nil _ _
  rw [hinner]
  apply InOrder.join (extent s.bodyStart)
  · exact fun n hn => node_in_order (body_fits (h n hn))
  · intro n hn
    have hfits := body_fits (h n hn)
    have hordered := hfits.ordered
    have hbounded := hfits.bounded
    exact ⟨Nat.le_add_left _ _, by simp only [extent]; omega, by simp only [extent]; omega⟩
  · refine hleaves.imp fun {m n} hmn => ?_
    have hstart := hmn.start
    have hstop := hmn.stop
    simp only [extent, Span.shift]
    omega

theorem passWith_inOrder {parse : Markdown.Parser}
    (h : ∀ n ∈ parse.nodes s.body, n.span.Fits s.body)
    (hleaves : (parse.nodes s.body).Pairwise (fun m n => m.span.Precedes n.span)) :
    InOrder (s.passWith parse).events 0 (byteSize s.document.text + 1) := by
  have hstart : InOrder [.startParse] 0 0 :=
    InOrder.single rfl rfl trivial (fun x hx => by cases hx)
  have hclosing : ∀ limit, InOrder (s.inner parse).closing limit limit := by
    intro limit
    rw [Delivery.closing]
    split
    · exact InOrder.single rfl rfl trivial (fun x hx => by cases hx)
    · exact InOrder.nil _ _
  have hbody : s.bodyStart ≤ byteSize s.document.text + 1 := by
    have := isBoundary_le s.isBoundary_bodyStart
    omega
  have hrest := ((front_in_order s).append (inner_in_order h hleaves) (Nat.zero_le _) hbody).append
    (hclosing _) (Nat.zero_le _) (Nat.le_refl _)
  rw [passWith_eq]
  exact hstart.append hrest (Nat.le_refl _) (Nat.zero_le _)

/-- If the nodes of the body are disjoint and found in document order, events
come in document order and nested as the text is, and so do directives, by
offset and by position. -/
theorem passWith_document_order (s : Source) (parse : Markdown.Parser)
    (h : ∀ n ∈ parse.nodes s.body, n.span.Fits s.body)
    (hleaves : (parse.nodes s.body).Pairwise (fun m n => m.span.Precedes n.span)) :
    let es := (s.passWith parse).events
    (es.filterMap Event.extent?).Pairwise Span.Precedes ∧
      (∀ e ∈ es, e.Nested) ∧
      (∀ b ∈ bodies es, BodyInOrder b.1 b.2) ∧
      es.filterMap Event.directive? = (bodies es).flatMap Prod.snd ∧
      (es.filterMap Event.directive?).Pairwise (fun d d' =>
        d.keySpan.start < d'.keySpan.start ∧
          Position.compare d.key.range.start d'.key.range.start = .lt) := by
  intro es
  have horder : InOrder es 0 _ := passWith_inOrder h hleaves
  refine ⟨horder.extents, horder.nested, horder.bodies, horder.covered, ?_⟩
  have hgrounded : ∀ d ∈ es.filterMap Event.directive?, Grounded s.document d.key.range := by
    intro d hd
    obtain ⟨e, he, hde⟩ := List.mem_filterMap.mp hd
    cases e with
    | directive d' =>
      obtain rfl := Option.some.inj hde
      exact (passWith_addresses s parse h _ he).ranges _ List.mem_cons_self
    | _ => cases hde
  refine horder.keys.imp_of_mem fun {d d'} hd hd' hlt => ⟨hlt, ?_⟩
  have hkey := hgrounded d hd
  have hkey' := hgrounded d' hd'
  rw [Position.compare_eq_lt, hkey.start, hkey'.start]
  exact s.document.positionAt_before hkey.fits.startBoundary hkey'.fits.startBoundary hlt

/-- A deck with front matter, a comment whose last value stands on a line of its
own, an image and math. -/
theorem passWith_document_order_deck :
    let s : Source :=
      ⟨⟨"---\nmarp: true\ntheme: 'é'\n---\n<!-- paginate: true\nclass:\n  lead -->\n\n![é](u) $x$".toList⟩,
        Registry.builtin⟩
    let parse : Markdown.Parser := fun _ => .ok (.group [.node .html (some ⟨1, 38⟩) [],
      .group [.node (.image ⟨['u'], ['é'], none⟩) (some ⟨40, 48⟩) [],
        .node .inlineMath (some ⟨49, 52⟩) []]])
    let es := (s.passWith parse).events
    (∀ n ∈ parse.nodes s.body, n.span.Fits s.body) ∧
      (parse.nodes s.body).Pairwise (fun m n => m.span.Precedes n.span) ∧
      es.filterMap Event.extent? = [⟨0, 30⟩, ⟨31, 68⟩, ⟨70, 78⟩, ⟨79, 82⟩] ∧
      (bodies es).map (fun b => (b.1, b.2.map DirectiveEvent.keySpan)) =
        [(⟨4, 27⟩, [⟨4, 8⟩, ⟨15, 20⟩]), (⟨36, 64⟩, [⟨36, 44⟩, ⟨51, 56⟩])] ∧
      (∀ b ∈ bodies es, BodyInOrder b.1 b.2) ∧
      (es.filterMap Event.directive?).Pairwise (fun d d' =>
        d.keySpan.start < d'.keySpan.start ∧
          Position.compare d.key.range.start d'.key.range.start = .lt) := by
  intro s parse es
  have hfit : ∀ n ∈ parse.nodes s.body, n.span.Fits s.body := by decide
  have hleaves : (parse.nodes s.body).Pairwise (fun m n => m.span.Precedes n.span) := by decide
  obtain ⟨-, -, hbodies, -, hkeys⟩ := passWith_document_order s parse hfit hleaves
  exact ⟨hfit, hleaves, by decide +kernel, by decide +kernel, hbodies, hkeys⟩

end Source

end Deck

end SlideDirectives
