import SlideDirectives.Proofs.Deck.KeyGaps
import SlideDirectives.Proofs.Editor.Offers
import SlideDirectives.Proofs.Editor.Reports
import SlideDirectives.Proofs.Text.LineCuts

/-!
# What completion replaces

A position is in one region at most. What was typed there stands between the
start of the region or of the line, whichever is later, and the offset of the
position, and items replace a last part of it. All of these are boundaries of
characters, so the text can be cut at them as bytes.
-/

set_option autoImplicit false

namespace SlideDirectives

open Text Deck

namespace Text.Holds

variable {cs front back : List Char} {s : Span}

theorem cut_before (h : Holds cs s (front ++ back)) :
    Holds cs ⟨s.start, s.stop - byteSize back⟩ front ∧
      Holds cs ⟨s.stop - byteSize back, s.stop⟩ back ∧
      s.stop - byteSize back = s.start + byteSize front := by
  obtain ⟨before, after, rfl, hs⟩ := h
  rw [byteSize_append] at hs
  have hstart : s.start = byteSize before := congrArg Span.start hs
  have hstop : s.stop = byteSize before + (byteSize front + byteSize back) := congrArg Span.stop hs
  have hcut : s.stop - byteSize back = byteSize before + byteSize front := by omega
  refine ⟨⟨before, back ++ after, by simp, by rw [hstart, hcut]⟩,
    ⟨before ++ front, after, by simp, ?_⟩, by rw [hcut, hstart]⟩
  rw [hcut, hstop, byteSize_append, Nat.add_assoc]

end Text.Holds

section Regions

open Editor.Completion (Region region?)

variable {s : Source} {parse : Markdown.Parser}

theorem Deck.Source.region_extent {e : Event} (he : e ∈ (s.passWith parse).events)
    (hn : e.Nested) {r : Region} (hr : region? e = some r) :
    ∃ x, e.extent? = some x ∧ x.start < r.range.span.start ∧ r.range.span.stop ≤ x.stop := by
  cases e with
  | frontMatter f =>
    obtain rfl := Option.some.inj hr
    exact ⟨_, rfl, s.passWith_opens parse _ he, Span.Within.stop hn⟩
  | comment c =>
    obtain rfl := Option.some.inj hr
    exact ⟨_, rfl, (s.passWith_opens parse _ he).1, hn.2.stop⟩
  | _ => cases hr

theorem Deck.Event.Addresses.region_grounded {d : Document} {e : Event} (h : e.Addresses d) {r : Region}
    (hr : region? e = some r) : Grounded d r.range := by
  cases e with
  | frontMatter f =>
    obtain rfl := Option.some.inj hr
    exact h.ranges _ (by simp [Event.ranges])
  | comment c =>
    obtain rfl := Option.some.inj hr
    exact h.ranges _ (by simp [Event.ranges])
  | _ => cases hr

theorem Deck.Source.passWith_regions
    (hfits : ∀ n ∈ parse.nodes s.body, s.yields n = true → n.span.Fits s.body)
    (hleaves : ((parse.nodes s.body).filter s.yields).Pairwise (fun m n => m.span.Precedes n.span)) :
    ((s.passWith parse).events.filterMap region?).Pairwise
        (fun r r' => r.range.stop.Before r'.range.start) ∧
      ∀ r ∈ (s.passWith parse).events.filterMap region?, Grounded s.document r.range := by
  obtain ⟨kept, hprefix, haddresses, horder⟩ := passWith_ordered hfits hleaves
  have hpart := hprefix.sublist.filterMap region?
  have hgrounded : ∀ r ∈ (s.passWith kept).events.filterMap region?,
      Grounded s.document r.range := by
    intro r hr
    obtain ⟨e, he, hr⟩ := List.mem_filterMap.mp hr
    exact (haddresses e he).region_grounded hr
  refine ⟨?_, fun r hr => hgrounded r (hpart.subset hr)⟩
  have hextent : ∀ e ∈ (s.passWith kept).events, ∀ span,
      (region? e).map (·.range.span) = some span →
      ∃ x, e.extent? = some x ∧ x.start < span.start ∧ span.stop ≤ x.stop := by
    intro e he span hspan
    obtain ⟨r, hr, rfl⟩ := Option.map_eq_some_iff.mp hspan
    exact region_extent he (horder.nested e he) hr
  have hspans := horder.apart hextent
  rw [← List.map_filterMap, List.pairwise_map] at hspans
  apply (hspans.imp_of_mem _).sublist hpart
  intro r r' hr hr' hapart
  rw [(hgrounded r hr).stop, (hgrounded r' hr').start]
  exact s.document.positionAt_before (hgrounded r hr).fits.stopBoundary
    (hgrounded r' hr').fits.startBoundary hapart

end Regions

namespace Editor.Completion

section Typed

variable (d : Document) (p : Position) (r : Region)

def typedSpan : Span :=
  ⟨max (d.offsetAt ⟨p.line, 0⟩) r.range.span.start, d.offsetAt p⟩

variable {d p r}

theorem typedSpan_within (hg : Grounded d r.range) (hp : r.range.contains p = true) :
    (typedSpan d p r).Within r.range.span := by
  obtain ⟨hstart, hstop⟩ := Bool.and_eq_true_iff.mp hp
  have hline : d.offsetAt ⟨p.line, 0⟩ ≤ d.offsetAt p :=
    d.offsetAt_mono (by simp [Position.le])
  have hfirst := d.offsetAt_mono hstart
  have hlast := d.offsetAt_mono hstop
  rw [hg.startBack] at hfirst
  rw [hg.stopBack] at hlast
  exact ⟨Nat.le_max_right _ _, Nat.max_le.mpr ⟨hline, hfirst⟩, hlast⟩

theorem typedSpan_fits (hg : Grounded d r.range) (hp : r.range.contains p = true) :
    (typedSpan d p r).Fits d.text := by
  refine Span.Fits.of_boundaries (typedSpan_within hg hp).ordered ?_ (d.isBoundary_offsetAt p)
  rcases Nat.le_total (d.offsetAt ⟨p.line, 0⟩) r.range.span.start with h | h
  · rw [typedSpan, Nat.max_eq_right h]
    exact hg.fits.startBoundary
  · rw [typedSpan, Nat.max_eq_left h]
    exact d.isBoundary_offsetAt _

/-- The items replace one last part of what was typed: for keys all of it but
white space in front, for values what follows the first colon. -/
structure Replaces (d : Document) (p : Position) (r : Region) (items : List Completion)
    (range : Range) : Prop where
  shared : ∀ i ∈ items, i.range = range
  grounded : Grounded d range
  stop : range.span.stop = d.offsetAt p
  start : (typedSpan d p r).start ≤ range.span.start
  within : range.span.Within r.range.span
  keys : ∀ i ∈ items, i.kind = .property →
    (∀ c ∈ d.textIn range.span, isKeyChar c = true) ∧
      ∀ c ∈ d.textIn ⟨(typedSpan d p r).start, range.span.start⟩, isBlank c = true
  values : ∀ i ∈ items, i.kind = .value → ∃ key value,
    d.textIn (typedSpan d p r) = key ++ ':' :: value ∧ ':' ∉ key ∧
      d.textIn range.span = trimStart value

theorem last_part (hg : Grounded d r.range) (hp : r.range.contains p = true)
    {front back : List Char} (h : d.textIn (typedSpan d p r) = front ++ back) :
    let range := d.rangeOf ⟨d.offsetAt p - byteSize back, d.offsetAt p⟩
    (Grounded d range ∧ (typedSpan d p r).start ≤ range.span.start ∧
      range.span.Within r.range.span) ∧
      d.textIn ⟨(typedSpan d p r).start, range.span.start⟩ = front ∧
      d.textIn range.span = back := by
  intro range
  have hholds : Holds d.text (typedSpan d p r) (d.textIn (typedSpan d p r)) :=
    (typedSpan_fits hg hp).holds
  have hwithin := typedSpan_within hg hp
  rw [h] at hholds
  obtain ⟨hfront, hback, hstart⟩ := hholds.cut_before
  have hle : (typedSpan d p r).start ≤ range.span.start := by
    change _ ≤ (typedSpan d p r).stop - byteSize back
    omega
  refine ⟨⟨grounded_rangeOf hback.fits, hle, ?_⟩, hfront.slice_eq, hback.slice_eq⟩
  exact ⟨Nat.le_trans hwithin.start hle, hback.fits.ordered, hwithin.stop⟩

theorem replaces_of_offer {o : Resolved} {items : List Completion} (hg : Grounded d r.range)
    (hp : r.range.contains p = true)
    (h : Offer o d r.context (d.offsetAt p) (trimStart (d.textIn (typedSpan d p r))) items) :
    ∃ range, Replaces d p r items range := by
  have hblank := takeWhile_append_trimStart (d.textIn (typedSpan d p r))
  generalize htyped : trimStart (d.textIn (typedSpan d p r)) = typed at h hblank
  have hfirst : ∀ c ∈ (d.textIn (typedSpan d p r)).takeWhile isBlank, isBlank c = true :=
    fun c hc => List.all_eq_true.mp List.all_takeWhile c hc
  cases h with
  | nothing =>
    obtain ⟨⟨hgrounded, hstart, hwithin⟩, -⟩ := last_part hg hp hblank.symm
    exact ⟨_, by simp, hgrounded, rfl, hstart, hwithin, by simp, by simp⟩
  | keys typed isKey =>
    obtain ⟨⟨hgrounded, hstart, hwithin⟩, hfront, hback⟩ := last_part hg hp hblank.symm
    refine ⟨_, fun i hi => (range_of_mem_keys hi).1, hgrounded, rfl, hstart, hwithin,
      fun i hi _ => ⟨?_, ?_⟩, fun i hi hkind => ?_⟩
    · rw [hback]
      exact isKey
    · rw [hfront]
      exact hfirst
    · rw [(range_of_mem_keys hi).2] at hkind
      cases hkind
  | values key value first =>
    have hvalue := takeWhile_append_trimStart value
    have hcut : d.textIn (typedSpan d p r) =
        ((d.textIn (typedSpan d p r)).takeWhile isBlank ++ (key ++ ':' :: value.takeWhile isBlank)) ++
          trimStart value := by
      conv_lhs => rw [← hblank, ← hvalue]
      simp
    obtain ⟨⟨hgrounded, hstart, hwithin⟩, -, hback⟩ := last_part hg hp hcut
    refine ⟨_, fun i hi => (range_of_mem_values hi).1, hgrounded, rfl, hstart, hwithin,
      fun i hi hkind => ?_, fun i hi _ => ?_⟩
    · rw [(range_of_mem_values hi).2] at hkind
      cases hkind
    · refine ⟨(d.textIn (typedSpan d p r)).takeWhile isBlank ++ key, value, ?_, ?_, hback⟩
      · rw [List.append_assoc, hblank]
      · intro hmem
        rcases List.mem_append.mp hmem with hmem | hmem
        · exact absurd (hfirst ':' hmem) (by decide)
        · exact first hmem

end Typed

section Cuts

variable (o : Resolved) (d : Document)

def rangeBefore (offset : Nat) (cs : List Char) : Except Span Range :=
  if byteSize cs ≤ offset then .ok (d.rangeOf ⟨offset - byteSize cs, offset⟩)
  else .error ⟨byteSize cs, offset⟩

def offeredCut (context : Context) (typed : List Char) (offset : Nat) :
    Except Span (List Completion) :=
  let key := typed.takeWhile (· != ':')
  match typed.drop key.length with
  | _ :: value => (rangeBefore d offset (trimStart value)).map (values o context (trim key))
  | [] => if typed.all isKeyChar then (rangeBefore d offset typed).map (keys context) else .ok []

/-- What is offered in a region, with every cut made in the bytes of the text. -/
def inRegionCut (p : Position) (r : Region) : Except Span (List Completion) := do
  let offset ← d.offsetAtCut p
  let line ← d.offsetAtCut ⟨p.line, 0⟩
  let start := max line r.range.span.start
  if offset < start then .ok []
  else do
    let text ← Text.cut d.text ⟨start, offset⟩
    offeredCut o d r.context (trimStart text) offset

def completeCut (text : List Char) (p : Position)
    (parse : Markdown.Parser := Markdown.parse .slideDeck) :
    Except Fault (Except Span (List Completion)) :=
  (pass text parse).toExcept.map fun es =>
    ((regionAt? p es).map (inRegionCut o ⟨text⟩ p)).getD (.ok [])

variable {o d} {p : Position} {r : Region}

theorem offeredCut_eq {context : Context} {typed : List Char} {offset : Nat}
    (h : byteSize typed ≤ offset) :
    offeredCut o d context typed offset = .ok (offered o d context typed offset) := by
  have hsplit := congrArg byteSize (takeWhile_append_drop (p := (· != ':')) typed)
  unfold offeredCut offered
  dsimp only
  generalize typed.drop (typed.takeWhile (· != ':')).length = rest at hsplit
  cases rest with
  | nil =>
    dsimp only
    split
    · rw [rangeBefore, if_pos h]
      rfl
    · rfl
  | cons c value =>
    have hvalue := congrArg byteSize (takeWhile_append_trimStart value)
    rw [byteSize_append] at hsplit hvalue
    rw [byteSize] at hsplit
    have hle : byteSize (trimStart value) ≤ offset := by omega
    dsimp only
    rw [rangeBefore, if_pos hle]
    rfl

theorem inRegionCut_eq (hg : Grounded d r.range) (hp : r.range.contains p = true) :
    inRegionCut o d p r = .ok (inRegion o d p r) := by
  have hfits := typedSpan_fits hg hp
  have hordered : ¬ d.offsetAt p < max (d.offsetAt ⟨p.line, 0⟩) r.range.span.start :=
    Nat.not_lt_of_le hfits.ordered
  have hsize : byteSize (trimStart (d.textIn (typedSpan d p r))) ≤ d.offsetAt p := by
    have hadd := hfits.start_add_byteSize
    have htrim := congrArg byteSize (takeWhile_append_trimStart (d.textIn (typedSpan d p r)))
    rw [byteSize_append] at htrim
    change _ + byteSize (d.textIn _) = d.offsetAt p at hadd
    omega
  rw [inRegionCut, Document.offsetAtCut_eq, Document.offsetAtCut_eq]
  change (if _ then _ else _) = _
  rw [inRegion, if_neg hordered, if_neg hordered]
  change (Text.cut d.text (typedSpan d p r)).bind _ = _
  rw [cut_fits hfits]
  exact offeredCut_eq hsize

end Cuts

theorem mem_of_regionAt {p : Position} {es : List Event} {r : Region}
    (h : regionAt? p es = some r) : r ∈ es.filterMap region? ∧ r.range.contains p = true := by
  have hp := List.find?_some h
  exact ⟨List.mem_of_find?_eq_some h, hp⟩

/-- If the nodes that events come from are disjoint and in document order, a
position is in one region at most, also if the document has no such position, and
cutting up the text in front of it never fails. Items are only offered in a
region. All of them replace the same part of it, which ends at the position and
starts no earlier than the line: what is typed of a key, or what stands behind
the first colon. -/
theorem completion_replaces (o : Resolved) (text : List Char) (parse : Markdown.Parser)
    (p : Position) {es : List Event}
    (hfits : let s : Source := ⟨⟨text⟩, Registry.builtin⟩
      ∀ n ∈ parse.nodes s.body, s.yields n = true → n.span.Fits s.body)
    (hleaves : let s : Source := ⟨⟨text⟩, Registry.builtin⟩
      ((parse.nodes s.body).filter s.yields).Pairwise
        (fun m n => m.span.Precedes n.span))
    (hpass : (pass text parse).toExcept = .ok es) :
    ∃ items, complete o text p parse = .ok items ∧ completeCut o text p parse = .ok (.ok items) ∧
      ((es.filterMap region?).filter (·.range.contains p)).length ≤ 1 ∧
      (items ≠ [] → ∃ r ∈ es.filterMap region?, r.range.contains p = true ∧
        ∃ range, Replaces ⟨text⟩ p r items range) := by
  obtain ⟨hapart, hgrounded⟩ := Source.passWith_regions hfits hleaves
  have hevents : (Source.passWith parse ⟨⟨text⟩, Registry.builtin⟩).events =
      es := (toExcept_eq_ok hpass).2
  rw [hevents] at hapart hgrounded
  refine ⟨ofEvents o ⟨text⟩ p es, ?_, ?_, Range.length_at hapart p, fun hne => ?_⟩
  · rw [complete, hpass]
    rfl
  · rw [completeCut, hpass]
    refine congrArg Except.ok ?_
    change ((regionAt? p es).map (inRegionCut o ⟨text⟩ p)).getD (.ok []) = .ok (ofEvents o ⟨text⟩ p es)
    rw [ofEvents]
    cases hregion : regionAt? p es with
    | none => rfl
    | some r =>
      obtain ⟨hmem, hp⟩ := mem_of_regionAt hregion
      exact inRegionCut_eq (hgrounded r hmem) hp
  · obtain ⟨i, hi⟩ := List.exists_mem_of_ne_nil _ hne
    obtain ⟨r, hregion, -, hoffer⟩ := offer_of_mem hi
    obtain ⟨hmem, hp⟩ := mem_of_regionAt hregion
    exact ⟨r, hmem, hp, replaces_of_offer (hgrounded r hmem) hp hoffer⟩

/-- A position between the two units of a character, within a value. -/
theorem completion_replaces_surrogates :
    let text := "---\ntheme: 😀g\n---\n<!-- _cl -->".toList
    let s : Source := ⟨⟨text⟩, Registry.builtin⟩
    let es := (pass text).events
    let o := Options.standard.resolve
    (∀ n ∈ (Markdown.parse .slideDeck).nodes s.body, s.yields n = true → n.span.Fits s.body) ∧
      (((Markdown.parse .slideDeck).nodes s.body).filter s.yields).Pairwise
        (fun m n => m.span.Precedes n.span) ∧
      (pass text).toExcept = .ok es ∧
      ∃ items, complete o text ⟨1, 8⟩ = .ok items ∧ completeCut o text ⟨1, 8⟩ = .ok (.ok items) ∧
        items.map label = ["default".toList, "gaia".toList, "uncover".toList] ∧
        ∃ r range, Replaces ⟨text⟩ ⟨1, 8⟩ r items range ∧ range.span = ⟨11, 15⟩ := by
  intro text s es o
  have hfits : ∀ n ∈ (Markdown.parse .slideDeck).nodes s.body, s.yields n = true → n.span.Fits s.body := by
    decide +kernel
  have hleaves : (((Markdown.parse .slideDeck).nodes s.body).filter s.yields).Pairwise
      (fun m n => m.span.Precedes n.span) := by
    decide +kernel
  have hfault : (pass text).fault = none := by decide +kernel
  have hpass : (pass text).toExcept = .ok es := by rw [Delivery.toExcept, hfault]
  let values := values o .frontMatter "theme".toList ⟨⟨1, 7⟩, ⟨1, 9⟩, ⟨11, 15⟩⟩
  have hvalues : complete o text ⟨1, 8⟩ = .ok values := by decide +kernel
  obtain ⟨items, hitems, hcut, -, hoffered⟩ := completion_replaces o text _ ⟨1, 8⟩ hfits hleaves hpass
  obtain rfl : values = items := Except.ok.inj (hvalues.symm.trans hitems)
  have hlabels : values.map label = ["default".toList, "gaia".toList, "uncover".toList] := by
    decide +kernel
  obtain ⟨i, hi⟩ := List.exists_mem_of_ne_nil values (by decide +kernel)
  obtain ⟨r, -, -, range, hreplaces⟩ := hoffered (List.ne_nil_of_mem hi)
  refine ⟨hfits, hleaves, hpass, values, hitems, hcut, hlabels, r, range, hreplaces, ?_⟩
  rw [← hreplaces.shared i hi, (range_of_mem_values hi).1]

end Editor.Completion

end SlideDirectives
