import SlideDirectives.Proofs.Deck.Marks
import SlideDirectives.Proofs.Text.OffsetOrder

/-!
# Gaps between keys

Between the keys of two directives there is always something that belongs to
neither: in one body at least the colon of the first, and from one body to the
next what opens the second. So ranges of keys that count both of their ends as
inside still do not meet, neither by offset nor by position.
-/

set_option autoImplicit false

namespace SlideDirectives.Deck

open Text

def Event.Opens : Event → Prop
  | .frontMatter e => e.range.span.start < e.bodyRange.span.start
  | .comment e => e.range.span.start < e.contentRange.span.start ∧
      e.contentRange.span.start ≤ e.bodyRange.span.start
  | _ => True

theorem Event.extent_of_body {e : Event} {body : Span} (h : e.body? = some body) (hn : e.Nested)
    (ho : e.Opens) : ∃ x, e.extent? = some x ∧ x.start < body.start ∧ body.stop ≤ x.stop := by
  cases e with
  | frontMatter e =>
    obtain rfl := Option.some.inj h
    exact ⟨_, rfl, ho, Span.Within.stop hn⟩
  | comment e =>
    obtain rfl := Option.some.inj h
    exact ⟨_, rfl, Nat.lt_of_lt_of_le ho.1 ho.2, (hn.1.trans hn.2).stop⟩
  | _ => cases h

theorem map_bodies (es : List Event) : (bodies es).map Prod.fst = es.filterMap Event.body? := by
  induction es with
  | nil => rfl
  | cons e es ih =>
    rw [bodies]
    cases hbody : e.body? with
    | none => rw [List.filterMap_cons_none hbody, ih]
    | some body => rw [List.filterMap_cons_some hbody, List.map_cons, ih]

namespace InOrder

variable {es : List Event} {first limit : Nat}

theorem apart (h : InOrder es first limit) {span? : Event → Option Span}
    (hspan : ∀ e ∈ es, ∀ s, span? e = some s →
      ∃ x, e.extent? = some x ∧ x.start < s.start ∧ s.stop ≤ x.stop) :
    (es.filterMap span?).Pairwise (fun s s' => s.stop < s'.start) := by
  rw [List.pairwise_filterMap]
  apply (List.pairwise_filterMap.mp h.extents).imp_of_mem
  intro e e' he he' hprecedes s hs s' hs'
  obtain ⟨x, hx, -, hstop⟩ := hspan e he s hs
  obtain ⟨x', hx', hstart, -⟩ := hspan e' he' s' hs'
  have hapart := (hprecedes x hx x' hx').stop
  omega

theorem bodies_apart (h : InOrder es first limit) (ho : ∀ e ∈ es, e.Opens) :
    (Deck.bodies es).Pairwise (fun b b' => b.1.stop < b'.1.start) := by
  rw [← List.pairwise_map (f := Prod.fst) (R := fun b b' : Span => b.stop < b'.start), map_bodies]
  exact h.apart fun e he body hbody => Event.extent_of_body hbody (h.nested e he) (ho e he)

theorem keys_apart (h : InOrder es first limit) (ho : ∀ e ∈ es, e.Opens) :
    (es.filterMap Event.directive?).Pairwise (fun d d' => d.keySpan.stop < d'.keySpan.start) := by
  rw [h.covered, List.pairwise_flatMap]
  constructor
  · intro b hb
    apply (h.bodies b hb).spaced.imp_of_mem
    intro d d' hd _ hspaced
    exact Nat.lt_of_le_of_lt ((h.bodies b hb).inside d hd).key_le hspaced
  · apply (h.bodies_apart ho).imp_of_mem
    intro b b' hb hb' hapart d hd d' hd'
    have hinside := (h.bodies b hb).inside d hd
    have hinside' := (h.bodies b' hb').inside d' hd'
    have hkey := hinside.key_le
    have hstop := hinside.stop
    have hstart := hinside'.start
    omega

end InOrder

theorem stop_grounded {document : Document} {d : DirectiveEvent}
    (h : ∀ r ∈ Event.ranges (.directive d), Grounded document r) :
    d.fullRange.stop = document.positionAt d.fullRange.span.stop := by
  rw [DirectiveEvent.fullRange]
  cases hvalue : d.value with
  | none => exact (h d.key.range List.mem_cons_self).stop
  | some v => exact (h v.range (List.mem_cons_of_mem _ (by simp [hvalue]))).stop

namespace Source

variable {s : Source} {parse : Markdown.Parser}

theorem FromFront.opens {f : FrontMatter} {e : Event} (hf : s.front? = some f)
    (h : s.FromFront f e) : e.Opens := by
  cases h with
  | frontMatter => exact FrontMatter.find?_opens hf
  | directive => trivial

theorem FromNode.opens {offset : Nat} {n : Markdown.Node} {e : Event}
    (h : s.FromNode offset n e) : e.Opens := by
  cases h with
  | comment found mem =>
    exact ⟨Nat.add_lt_add_right (Html.comments_fit found _ mem).opens _, Nat.le_add_right _ _⟩
  | _ => trivial

theorem passWith_opens (s : Source) (parse : Markdown.Parser) :
    ∀ e ∈ (s.passWith parse).events, e.Opens := by
  intro e he
  rcases mem_passWith he with rfl | rfl | ⟨f, hf, hfrom⟩ | ⟨n, -, hfrom⟩
  · trivial
  · trivial
  · exact hfrom.opens hf
  · exact hfrom.opens

/-- If the nodes that events come from are disjoint and in document order, the
range of each key stops in front of the next one, and none goes on behind the
directive that it belongs to. -/
theorem passWith_keys
    (hfits : ∀ n ∈ parse.nodes s.body, s.yields n = true → n.span.Fits s.body)
    (hleaves : ((parse.nodes s.body).filter s.yields).Pairwise (fun m n => m.span.Precedes n.span)) :
    ((s.passWith parse).events.filterMap Event.directive?).Pairwise
        (fun d d' => d.key.range.stop.Before d'.key.range.start) ∧
      ∀ d ∈ (s.passWith parse).events.filterMap Event.directive?,
        d.key.range.start.le d.key.range.stop = true ∧
          d.key.range.stop.le d.fullRange.stop = true := by
  obtain ⟨kept, hprefix, haddresses, horder⟩ := passWith_ordered hfits hleaves
  have hopens := s.passWith_opens kept
  have hpart := hprefix.sublist.filterMap Event.directive?
  generalize (s.passWith kept).events = es at *
  have hgrounded : ∀ d ∈ es.filterMap Event.directive?, .directive d ∈ es ∧
      ∀ r ∈ Event.ranges (.directive d), Grounded s.document r := by
    intro d hd
    have hmem := mem_filterMap_directive?.mp hd
    exact ⟨hmem, (haddresses _ hmem).ranges⟩
  constructor
  · apply (horder.keys_apart hopens).imp_of_mem _ |>.sublist hpart
    intro d d' hd hd' hapart
    have hkey := (hgrounded d hd).2 _ List.mem_cons_self
    have hkey' := (hgrounded d' hd').2 _ List.mem_cons_self
    rw [hkey.stop, hkey'.start]
    exact s.document.positionAt_before hkey.fits.stopBoundary hkey'.fits.startBoundary hapart
  · intro d hd
    obtain ⟨hmem, hranges⟩ := hgrounded d (hpart.subset hd)
    obtain ⟨body, hinside⟩ := horder.inside hmem
    have hkey := hranges _ List.mem_cons_self
    have hle := hinside.key_le
    constructor
    · rw [hkey.start, hkey.stop]
      exact s.document.positionAt_mono hkey.fits.ordered
    · rw [hkey.stop, stop_grounded hranges]
      exact s.document.positionAt_mono hle

end Source

end SlideDirectives.Deck
