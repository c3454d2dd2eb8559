import SlideDirectives.Proofs.Deck.InOrder

/-!
# Marks in order

Directives, images and math mark the document. In a pass that is in order
their marks follow each other, also where a directive of one body meets an image
or a directive of the next. What remains of the events behind a body's opening
is walked through, with the body that its first directives belong to.
-/

set_option autoImplicit false

namespace SlideDirectives

namespace Markdown

/-- Finds of what `parse` does only the nodes with a property. -/
def Parser.keeping (p : Node → Bool) (parse : Parser) : Parser :=
  fun text => (parse text).map fun t => .group ((t.nodes.filter p).map Node.tree)

theorem Tree.nodes_ofNodes (ns : List Node) : (group (ns.map Node.tree)).nodes = ns := by
  rw [nodes_group, List.flatMap_map]
  simp only [Node.nodes_tree]
  exact List.flatMap_singleton' ns

theorem Parser.nodes_keeping {p : Node → Bool} {parse : Parser} {text : List Char} :
    (parse.keeping p).nodes text = (parse.nodes text).filter p := by
  rw [nodes, nodes, keeping]
  cases parse text with
  | ok t => exact Tree.nodes_ofNodes _
  | error m => rfl

end Markdown

namespace Deck

open Text

def Event.mark? : Event → Option Range
  | .directive d => some d.fullRange
  | .image e => some e.range
  | .maybeMath e => some e.range
  | _ => none

def Event.value? (e : Event) : Option Range :=
  e.directive?.bind (fun d => d.value.map Ranged.range)

theorem Event.value?_eq_some {e : Event} {r : Range} : e.value? = some r ↔
    ∃ d v, e = .directive d ∧ d.value = some v ∧ v.range = r := by
  cases e <;> simp [value?, directive?]

theorem Event.kinds {e : Event} (h : e.Nested) : (∃ d, e = .directive d) ∨
    (∃ x opened, e.extent? = some x ∧ e.body? = some opened ∧ opened.Within x ∧ e.mark? = none) ∨
      (e.body? = none ∧ e.directive? = none ∧ e.mark?.map Range.span = e.extent?) := by
  cases e with
  | directive d => exact .inl ⟨d, rfl⟩
  | frontMatter f => exact .inr (.inl ⟨_, _, rfl, rfl, h, rfl⟩)
  | comment c => exact .inr (.inl ⟨_, _, rfl, rfl, h.1.trans h.2, rfl⟩)
  | _ => exact .inr (.inr ⟨rfl, rfl, rfl⟩)

theorem directives_sublist (es : List Event) :
    (leading es ++ (bodies es).flatMap Prod.snd).Sublist (es.filterMap Event.directive?) := by
  induction es with
  | nil => exact List.Sublist.refl _
  | cons e es ih =>
    have hbehind : ((bodies es).flatMap Prod.snd).Sublist (es.filterMap Event.directive?) :=
      (List.sublist_append_right _ _).trans ih
    cases e with
    | directive d => exact ih.cons_cons d
    | frontMatter f => exact ih
    | comment c => exact ih
    | _ => exact hbehind

/-- What remains of events in order: its first directives belong to the given
body, and all else stands behind that. -/
structure Remains (body : Span) (es : List Event) : Prop where
  extents : (es.filterMap Event.extent?).Pairwise Span.Precedes
  nested : ∀ e ∈ es, e.Nested
  bodies : ∀ b ∈ bodies es, BodyInOrder b.1 b.2
  covered : es.filterMap Event.directive? = leading es ++ (Deck.bodies es).flatMap Prod.snd
  leading : BodyInOrder body (leading es)
  apart : ∀ x ∈ es.filterMap Event.extent?, body.stop ≤ x.start

namespace Remains

variable {body : Span} {e : Event} {es : List Event}

theorem of_inOrder {first limit : Nat} (h : InOrder es first limit) :
    Remains ⟨first, first⟩ es := by
  refine ⟨h.extents, h.nested, h.bodies, ?_, ?_, fun x hx => (h.placed x hx).1⟩
  · rw [h.covered, h.fresh, List.nil_append]
  · rw [h.fresh]
    exact ⟨by simp, List.Pairwise.nil⟩

theorem behind_directive {d : DirectiveEvent} (h : Remains body (.directive d :: es)) :
    Remains body es := by
  have hleading := h.leading
  refine ⟨h.extents, fun e he => h.nested e (List.mem_cons_of_mem _ he), h.bodies,
    (List.cons.inj h.covered).2, ⟨?_, (List.pairwise_cons.mp hleading.spaced).2⟩, h.apart⟩
  exact fun d' hd' => hleading.inside d' (List.mem_cons_of_mem d hd')

theorem behind_opening {x opened : Span} (hx : e.extent? = some x) (hbody : e.body? = some opened)
    (hwithin : opened.Within x) (h : Remains body (e :: es)) : Remains opened es := by
  have hdirective : e.directive? = none := by
    cases e <;> first | rfl | cases hx
  have hnone : Deck.leading (e :: es) = [] := by
    cases e <;> first | rfl | cases hx
  have hbodies : Deck.bodies (e :: es) = (opened, Deck.leading es) :: Deck.bodies es := by
    rw [Deck.bodies, hbody]
  obtain ⟨hextents, hnested, hinside, hcovered, -, -⟩ := h
  rw [List.filterMap_cons_some hx, List.pairwise_cons] at hextents
  rw [hbodies] at hinside
  rw [List.filterMap_cons_none hdirective, hnone, hbodies, List.nil_append,
    List.flatMap_cons] at hcovered
  refine ⟨hextents.2, fun e he => hnested e (List.mem_cons_of_mem _ he),
    fun b hb => hinside b (List.mem_cons_of_mem _ hb), hcovered,
    hinside _ List.mem_cons_self, fun y hy => ?_⟩
  exact Nat.le_trans hwithin.stop (hextents.1 y hy).stop

theorem behind_other (hbody : e.body? = none) (hdirective : e.directive? = none)
    (h : Remains body (e :: es)) : Deck.leading es = [] ∧ Remains body es := by
  have hnone : Deck.leading (e :: es) = [] := by
    cases e <;> first | rfl | cases hdirective
  have hbodies : Deck.bodies (e :: es) = Deck.bodies es := by
    rw [Deck.bodies, hbody]
  obtain ⟨hextents, hnested, hinside, hcovered, hleading, hapart⟩ := h
  rw [List.filterMap_cons_none hdirective, hnone, hbodies, List.nil_append] at hcovered
  rw [hnone] at hleading
  have hempty : Deck.leading es = [] := by
    have hlength := (directives_sublist es).length_le
    rw [hcovered, List.length_append] at hlength
    exact List.length_eq_zero_iff.mp (by omega)
  have htail := (List.sublist_cons_self e es).filterMap Event.extent?
  refine ⟨hempty, hextents.sublist htail, fun e he => hnested e (List.mem_cons_of_mem _ he),
    hbodies ▸ hinside, ?_, ?_, fun x hx => hapart x (htail.subset hx)⟩
  · rw [hcovered, hempty, List.nil_append]
  · rw [hempty]
    exact hleading

theorem marks_placed (h : Remains body es) : ∀ r ∈ es.filterMap Event.mark?,
    (∃ d ∈ Deck.leading es, r = d.fullRange) ∨
      ∃ x ∈ es.filterMap Event.extent?, x.start ≤ r.span.start := by
  induction es generalizing body with
  | nil => simp
  | cons e es ih =>
    intro r hr
    rcases Event.kinds (h.nested e List.mem_cons_self) with
      ⟨d, rfl⟩ | ⟨x, opened, hx, hbody, hwithin, hmark⟩ | ⟨hbody, hdirective, hmark⟩
    case inl =>
      rcases List.mem_cons.mp hr with rfl | hr
      · exact .inl ⟨d, List.mem_cons_self, rfl⟩
      · rcases ih h.behind_directive r hr with ⟨d', hd', rfl⟩ | hbehind
        · exact .inl ⟨d', List.mem_cons_of_mem d hd', rfl⟩
        · exact .inr hbehind
    case inr.inl =>
      have hrest := h.behind_opening hx hbody hwithin
      rw [List.filterMap_cons_none hmark] at hr
      rw [List.filterMap_cons_some hx]
      rcases ih hrest r hr with ⟨d, hd, rfl⟩ | ⟨y, hy, hle⟩
      · exact .inr ⟨x, List.mem_cons_self,
          Nat.le_trans hwithin.start (hrest.leading.inside d hd).start⟩
      · exact .inr ⟨y, List.mem_cons_of_mem x hy, hle⟩
    case inr.inr =>
      obtain ⟨hempty, hrest⟩ := h.behind_other hbody hdirective
      obtain ⟨e', he', hof⟩ := List.mem_filterMap.mp hr
      rcases List.mem_cons.mp he' with rfl | he'
      · rw [hof] at hmark
        exact .inr ⟨_, List.mem_filterMap.mpr ⟨e', List.mem_cons_self, hmark.symm⟩, Nat.le_refl _⟩
      · rcases ih hrest r (List.mem_filterMap.mpr ⟨e', he', hof⟩) with ⟨d, hd, -⟩ | ⟨y, hy, hle⟩
        · rw [hempty] at hd
          cases hd
        · exact .inr ⟨y, ((List.sublist_cons_self e es).filterMap _).subset hy, hle⟩

theorem marks (h : Remains body es) :
    (es.filterMap Event.mark?).Pairwise (fun r r' => r.span.Precedes r'.span) := by
  induction es generalizing body with
  | nil => exact List.Pairwise.nil
  | cons e es ih =>
    rcases Event.kinds (h.nested e List.mem_cons_self) with
      ⟨d, rfl⟩ | ⟨x, opened, hx, hbody, hwithin, hmark⟩ | ⟨hbody, hdirective, hmark⟩
    case inl =>
      have hrest := h.behind_directive
      refine List.pairwise_cons.mpr ⟨fun r hr => ?_, ih hrest⟩
      have hinside := h.leading.inside d List.mem_cons_self
      have hstart : d.fullRange.span.start < d.fullRange.span.stop :=
        Nat.lt_of_lt_of_le hinside.key hinside.key_le
      have hstop : d.fullRange.span.stop ≤ r.span.start := by
        rcases hrest.marks_placed r hr with ⟨d', hd', rfl⟩ | ⟨x, hx, hle⟩
        · exact Nat.le_of_lt ((List.pairwise_cons.mp h.leading.spaced).1 d' hd')
        · exact Nat.le_trans hinside.stop (Nat.le_trans (h.apart x hx) hle)
      exact ⟨Nat.lt_of_lt_of_le hstart hstop, hstop⟩
    case inr.inl =>
      rw [List.filterMap_cons_none hmark]
      exact ih (h.behind_opening hx hbody hwithin)
    case inr.inr =>
      obtain ⟨hempty, hrest⟩ := h.behind_other hbody hdirective
      cases hr : e.mark? with
      | none =>
        rw [List.filterMap_cons_none hr]
        exact ih hrest
      | some r =>
        rw [hr, Option.map_some] at hmark
        have hextents := h.extents
        rw [List.filterMap_cons_some hmark.symm, List.pairwise_cons] at hextents
        rw [List.filterMap_cons_some hr]
        refine List.pairwise_cons.mpr ⟨fun r' hr' => ?_, ih hrest⟩
        rcases hrest.marks_placed r' hr' with ⟨d, hd, -⟩ | ⟨x, hx, hle⟩
        · rw [hempty] at hd
          cases hd
        · have hprecedes := hextents.1 x hx
          exact ⟨Nat.lt_of_lt_of_le hprecedes.start hle, Nat.le_trans hprecedes.stop hle⟩

end Remains

namespace InOrder

variable {es : List Event} {first limit : Nat}

theorem marks (h : InOrder es first limit) :
    (es.filterMap Event.mark?).Pairwise (fun r r' => r.span.Precedes r'.span) :=
  (Remains.of_inOrder h).marks

theorem inside (h : InOrder es first limit) {d : DirectiveEvent} (hd : .directive d ∈ es) :
    ∃ body, d.Inside body := by
  have hmem := mem_filterMap_directive?.mpr hd
  rw [h.covered] at hmem
  obtain ⟨b, hb, hd⟩ := List.mem_flatMap.mp hmem
  exact ⟨b.1, (h.bodies b hb).inside d hd⟩

theorem values (h : InOrder es first limit) :
    (es.filterMap Event.value?).Pairwise (fun r r' => r.span.start < r'.span.start) := by
  have hmarks := List.pairwise_filterMap.mp h.marks
  refine List.pairwise_filterMap.mpr (hmarks.imp_of_mem fun {e e'} he he' hprecedes => ?_)
  intro r hr r' hr'
  obtain ⟨d, v, rfl, hv, rfl⟩ := Event.value?_eq_some.mp hr
  obtain ⟨d', v', rfl, hv', rfl⟩ := Event.value?_eq_some.mp hr'
  obtain ⟨body, hinside⟩ := h.inside he
  obtain ⟨body', hinside'⟩ := h.inside he'
  have hordered := (hinside.value v hv).2.ordered
  have hstop : d.fullRange.span.stop = v.range.span.stop := by
    simp [DirectiveEvent.fullRange, hv]
  have hapart : d.fullRange.span.stop ≤ d'.keySpan.start := (hprecedes _ rfl _ rfl).stop
  have hkey' := hinside'.key
  have hvalue' := (hinside'.value v' hv').1
  omega

end InOrder

/-- Parts without events make no difference, unless one of them ends the
delivery before those behind it. -/
theorem Delivery.join_yielding {α : Type} (part : α → Delivery) (xs : List α) :
    let kept := join ((xs.filter (fun x => !(part x).events.isEmpty)).map part)
    join (xs.map part) = kept ∨
      (join (xs.map part)).closing = [] ∧ (join (xs.map part)).events <+: kept.events := by
  induction xs with
  | nil => exact .inl rfl
  | cons x xs ih =>
    rw [List.map_cons, join, append, List.filter_cons]
    cases hfault : (part x).fault with
    | some f =>
      have hclosing : (part x).closing = [] := by simp [closing, hfault]
      split
      · rw [List.map_cons, join, append, hfault]
        exact .inl rfl
      · next hempty =>
        have hnone : (part x).events = [] := by simpa using hempty
        exact .inr ⟨hclosing, hnone ▸ List.nil_prefix⟩
    | none =>
      split
      · rw [List.map_cons, join, append, hfault]
        rcases ih with heq | ⟨hclosing, hpart⟩
        · exact .inl (by rw [← heq])
        · exact .inr ⟨hclosing, (List.prefix_append_right_inj _).mpr hpart⟩
      · next hempty =>
        have hnone : (part x).events = [] := by simpa using hempty
        simpa [hnone] using ih

namespace Source

variable {s : Source} {parse : Markdown.Parser}

def yields (s : Source) (n : Markdown.Node) : Bool :=
  !(s.node s.bodyStart n).events.isEmpty

theorem passWith_yielding (s : Source) (parse : Markdown.Parser) :
    (s.passWith parse).events <+: (s.passWith (parse.keeping s.yields)).events := by
  have hinner : s.inner parse = s.inner (parse.keeping s.yields) ∨
      (s.inner parse).closing = [] ∧
        (s.inner parse).events <+: (s.inner (parse.keeping s.yields)).events := by
    rw [inner, inner, Markdown.Parser.keeping]
    cases parse s.body with
    | error m => exact .inl rfl
    | ok t =>
      simp only [Except.map, visitParsed, visit_eq_join, Markdown.Tree.nodes_ofNodes]
      exact Delivery.join_yielding (s.node s.bodyStart) t.nodes
  rw [passWith_eq, passWith_eq]
  rcases hinner with heq | ⟨hclosing, hpart⟩
  · exact ⟨[], by rw [heq, List.append_nil]⟩
  · rw [hclosing, List.append_nil]
    refine List.cons_prefix_cons.mpr ⟨rfl, ?_⟩
    exact ((List.prefix_append_right_inj _).mpr hpart).trans (List.prefix_append _ _)

theorem grounded_start {d : Document} {e : Event} (h : e.Addresses d) {r : Range}
    (hr : e.mark? = some r ∨ e.value? = some r) :
    r.start = d.positionAt r.span.start ∧ isBoundary d.text r.span.start = true := by
  have hgrounded : ∀ r ∈ e.ranges, r.start = d.positionAt r.span.start ∧
      isBoundary d.text r.span.start = true :=
    fun r hr => ⟨(h.ranges r hr).start, (h.ranges r hr).fits.startBoundary⟩
  rcases hr with hr | hr
  · cases e with
    | directive e =>
      obtain rfl := Option.some.inj hr
      exact hgrounded e.key.range List.mem_cons_self
    | image e =>
      obtain rfl := Option.some.inj hr
      exact hgrounded e.range List.mem_cons_self
    | maybeMath e =>
      obtain rfl := Option.some.inj hr
      exact hgrounded e.range List.mem_cons_self
    | _ => cases hr
  · obtain ⟨e, v, rfl, hv, rfl⟩ := Event.value?_eq_some.mp hr
    exact hgrounded v.range (List.mem_cons_of_mem _ (by simp [hv]))

/-- If the nodes that events come from are disjoint and in document order, the
events are the first of a pass that is in order and addresses the text. -/
theorem passWith_ordered
    (hfits : ∀ n ∈ parse.nodes s.body, s.yields n = true → n.span.Fits s.body)
    (hleaves : ((parse.nodes s.body).filter s.yields).Pairwise (fun m n => m.span.Precedes n.span)) :
    ∃ kept, (s.passWith parse).events <+: (s.passWith kept).events ∧
      (∀ e ∈ (s.passWith kept).events, e.Addresses s.document) ∧
      InOrder (s.passWith kept).events 0 (byteSize s.document.text + 1) := by
  have hyielding : ∀ n ∈ (parse.keeping s.yields).nodes s.body, n.span.Fits s.body := by
    intro n hn
    rw [Markdown.Parser.nodes_keeping] at hn
    obtain ⟨hmem, hyields⟩ := List.mem_filter.mp hn
    exact hfits n hmem hyields
  rw [← Markdown.Parser.nodes_keeping] at hleaves
  exact ⟨parse.keeping s.yields, s.passWith_yielding parse, s.passWith_addresses _ hyielding,
    passWith_inOrder hyielding hleaves⟩

theorem passWith_starts
    (hfits : ∀ n ∈ parse.nodes s.body, s.yields n = true → n.span.Fits s.body)
    (hleaves : ((parse.nodes s.body).filter s.yields).Pairwise (fun m n => m.span.Precedes n.span)) :
    ((s.passWith parse).events.filterMap Event.mark?).Pairwise
        (fun r r' => r.start.Before r'.start) ∧
      ((s.passWith parse).events.filterMap Event.value?).Pairwise
        (fun r r' => r.start.Before r'.start) := by
  obtain ⟨kept, hprefix, haddresses, horder⟩ := passWith_ordered hfits hleaves
  have hpart := hprefix.sublist
  generalize (s.passWith kept).events = es at *
  have hbefore : ∀ {r r' : Range} {e e' : Event}, e ∈ es → e' ∈ es →
      (e.mark? = some r ∨ e.value? = some r) → (e'.mark? = some r' ∨ e'.value? = some r') →
      r.span.start < r'.span.start → r.start.Before r'.start := by
    intro r r' e e' he he' hr hr' hlt
    obtain ⟨hstart, hboundary⟩ := grounded_start (haddresses e he) hr
    obtain ⟨hstart', hboundary'⟩ := grounded_start (haddresses e' he') hr'
    rw [hstart, hstart']
    exact s.document.positionAt_before hboundary hboundary' hlt
  have hmarks := List.pairwise_filterMap.mp horder.marks
  have hvalues := List.pairwise_filterMap.mp horder.values
  constructor
  · refine List.Pairwise.sublist (hpart.filterMap _) ?_
    refine List.pairwise_filterMap.mpr (hmarks.imp_of_mem fun he he' hapart r hr r' hr' => ?_)
    exact hbefore he he' (.inl hr) (.inl hr') (hapart r hr r' hr').start
  · refine List.Pairwise.sublist (hpart.filterMap _) ?_
    refine List.pairwise_filterMap.mpr (hvalues.imp_of_mem fun he he' hapart r hr r' hr' => ?_)
    exact hbefore he he' (.inr hr) (.inr hr') (hapart r hr r' hr')

end Source

end Deck

end SlideDirectives
