import SlideDirectives.Editor.Completion
import SlideDirectives.Proofs.Deck.InOrder
import SlideDirectives.Proofs.Directive.Lookup
import SlideDirectives.Proofs.Text.Trim

/-!
# Offered keys

What is offered depends on the text typed in front of the position: keys while
it could be one, the values of a key behind a colon, or nothing. The keys are
those that a pass recognises in the region, each in one spelling that counts.
-/

set_option autoImplicit false

namespace SlideDirectives.Editor.Completion

open Text Deck

section Offer

variable (o : Resolved) (d : Document) (context : Context) (offset : Nat)

/-- What was typed up to `offset`, and what is offered for it. -/
inductive Offer : List Char → List Completion → Prop
  | nothing (typed : List Char) : Offer typed []
  | keys (typed : List Char) (isKey : ∀ c ∈ typed, isKeyChar c = true) :
    Offer typed (keys context (d.rangeOf ⟨offset - byteSize typed, offset⟩))
  | values (key value : List Char) (first : ':' ∉ key) :
    Offer (key ++ ':' :: value)
      (values o context (trim key) (d.rangeOf ⟨offset - byteSize (trimStart value), offset⟩))

theorem offer_offered (typed : List Char) :
    Offer o d context offset typed (offered o d context typed offset) := by
  have hsplit := List.takeWhile_append_dropWhile (p := (· != ':')) (l := typed)
  have hdrop : typed.drop (typed.takeWhile (· != ':')).length = typed.dropWhile (· != ':') :=
    List.append_cancel_left ((takeWhile_append_drop typed).trans hsplit.symm)
  unfold offered
  simp only [hdrop]
  cases hrest : typed.dropWhile (· != ':') with
  | nil =>
    dsimp only
    split
    · next hall => exact Offer.keys typed (List.all_eq_true.mp hall)
    · exact Offer.nothing typed
  | cons c value =>
    have hfirst : ':' ∉ typed.takeWhile (· != ':') := by
      intro hmem
      have hne := List.all_eq_true.mp List.all_takeWhile _ hmem
      simp at hne
    have hcolon : c = ':' := by
      have hhead := List.head_dropWhile_not (· != ':') (l := typed) (by simp [hrest])
      simpa [hrest] using hhead
    rw [hrest, hcolon] at hsplit
    conv => arg 5; rw [← hsplit]
    exact Offer.values _ value hfirst

end Offer

section Keys

variable {context : Context} {range : Range} {i : Completion}

def isScopedKey (i : Completion) : Bool :=
  i.detail == "local directive (scoped)"

theorem isScopedKey_ofKey (range : Range) (d : Definition) (isScoped : Bool) :
    (ofKey range d isScoped).isScopedKey = isScoped := by
  cases isScoped with
  | true => rfl
  | false => cases hd : d.scope <;> simp [isScopedKey, ofKey, hd, Scope.label]

theorem name_head {d : Definition} (h : d ∈ Registry.builtin.definitions) :
    d.name.head? ≠ some '_' := by
  have hall : ∀ d ∈ Registry.builtin.definitions, d.name.head? ≠ some '_' := by decide +kernel
  exact hall d h

theorem mem_keys_iff : i ∈ keys context range ↔
    ∃ m, Registry.builtin.lookup? i.label context = some m ∧
      i = ofKey range m.definition m.isScoped := by
  simp only [Registry.lookup?_eq_some Registry.builtin_distinct, keys, List.mem_append,
    List.mem_map, List.mem_filter]
  constructor
  · rintro (⟨d, ⟨hmem, hallowed⟩, rfl⟩ | ⟨d, ⟨⟨hmem, hallowed⟩, hlocal⟩, rfl⟩)
    · exact ⟨⟨d, false⟩, Or.inl ⟨⟨hmem, rfl, hallowed⟩, rfl⟩, rfl⟩
    · refine ⟨⟨d, true⟩, Or.inr ⟨?_, ⟨hmem, beq_iff_eq.mp hlocal, hallowed, rfl⟩, rfl⟩, rfl⟩
      intro d' hd'
      exact name_head hd'.declared (congrArg List.head? hd'.name)
  · rintro ⟨⟨d, isScoped⟩, ⟨hnames, rfl⟩ | ⟨-, hscopes, rfl⟩, hi⟩
    · exact Or.inl ⟨d, ⟨hnames.declared, hnames.allowed⟩, hi.symm⟩
    · exact Or.inr ⟨d, ⟨⟨hscopes.declared, hscopes.allowed⟩, beq_iff_eq.mpr hscopes.ofSlide⟩,
        hi.symm⟩

theorem label_ofKey {key : List Char} {m : Recognised}
    (h : Registry.builtin.lookup? key context = some m) :
    (ofKey range m.definition m.isScoped).label = key := by
  rcases (Registry.lookup?_eq_some Registry.builtin_distinct).mp h with
    ⟨hnames, hplain⟩ | ⟨-, hscopes, hscoped⟩
  · rw [hplain]
    exact hnames.name
  · rw [hscoped]
    exact hscopes.spelling.symm

theorem labels_nodup (context : Context) (range : Range) :
    ((keys context range).map label).Nodup := by
  have hnames : ((Registry.builtin.definitions.filter (·.allows context)).map
      Definition.name).Nodup :=
    Registry.builtin_distinct.sublist (List.filter_sublist.map _)
  rw [keys, List.map_append, List.map_map, List.map_map, List.nodup_append]
  refine ⟨hnames, ?_, ?_⟩
  · have hlocal := hnames.sublist ((List.filter_sublist (p := Definition.isLocal)).map _)
    have hscoped := hlocal.map (List.cons_injective (a := '_'))
    rw [List.map_map] at hscoped
    exact hscoped
  · intro name hname key hkey heq
    obtain ⟨d, hd, rfl⟩ := List.mem_map.mp hname
    obtain ⟨d', -, rfl⟩ := List.mem_map.mp hkey
    exact name_head (List.mem_filter.mp hd).1 (congrArg List.head? heq)

/-- The items offer what is recognised in a context. -/
structure OffersRecognised (context : Context) (items : List Completion) : Prop where
  labels : ∀ key, key ∈ items.map label ↔ (Registry.builtin.lookup? key context).isSome = true
  once : (items.map label).Nodup
  marks : ∀ i ∈ items, ∀ m, Registry.builtin.lookup? i.label context = some m →
    i.isScopedKey = m.isScoped
  inserts : ∀ i ∈ items, i.kind = .property ∧ i.inserted = i.label ++ [':', ' ']

theorem keys_offer (context : Context) (range : Range) :
    OffersRecognised context (keys context range) := by
  refine ⟨fun key => ?_, labels_nodup context range, fun i hi m hm => ?_, fun i hi => ?_⟩
  · rw [List.mem_map, Option.isSome_iff_exists]
    constructor
    · rintro ⟨i, hi, rfl⟩
      obtain ⟨m, hm, -⟩ := mem_keys_iff.mp hi
      exact ⟨m, hm⟩
    · rintro ⟨m, hm⟩
      have hlabel : (ofKey range m.definition m.isScoped).label = key := label_ofKey hm
      refine ⟨ofKey range m.definition m.isScoped, mem_keys_iff.mpr ⟨m, ?_, rfl⟩, hlabel⟩
      rw [hlabel, hm]
  · obtain ⟨m', hm', hi⟩ := mem_keys_iff.mp hi
    rw [hm, Option.some.injEq] at hm'
    rw [hi, isScopedKey_ofKey, hm']
  · obtain ⟨m, -, rfl⟩ := mem_keys_iff.mp hi
    exact ⟨rfl, rfl⟩

theorem range_of_mem_keys (h : i ∈ keys context range) : i.range = range ∧ i.kind = .property := by
  obtain ⟨m, -, rfl⟩ := mem_keys_iff.mp h
  exact ⟨rfl, rfl⟩

theorem range_of_mem_values {o : Resolved} {key : List Char} (h : i ∈ values o context key range) :
    i.range = range ∧ i.kind = .value := by
  rw [values] at h
  split at h
  · obtain ⟨value, -, rfl⟩ := List.mem_map.mp h
    exact ⟨rfl, rfl⟩
  · cases h

theorem Offer.keys_of_mem {o : Resolved} {d : Document} {offset : Nat} {typed : List Char}
    {items : List Completion} (h : Offer o d context offset typed items) (hi : i ∈ items)
    (hkind : i.kind = .property) : ∃ range, items = Completion.keys context range := by
  cases h with
  | nothing => cases hi
  | keys => exact ⟨_, rfl⟩
  | values =>
    rw [(range_of_mem_values hi).2] at hkind
    cases hkind

theorem Offer.values_of_mem {o : Resolved} {d : Document} {offset : Nat} {typed : List Char}
    {items : List Completion} (h : Offer o d context offset typed items) (hi : i ∈ items)
    (hkind : i.kind = .value) : ∃ key range, items = Completion.values o context key range := by
  cases h with
  | nothing => cases hi
  | keys =>
    rw [(range_of_mem_keys hi).2] at hkind
    cases hkind
  | values => exact ⟨_, _, rfl⟩

end Keys

section Documents

variable {o : Resolved} {text : List Char} {parse : Markdown.Parser} {p : Position}
  {items : List Completion}

theorem complete_eq_ok (h : complete o text p parse = .ok items) :
    ∃ es, (pass text parse).toExcept = .ok es ∧ items = ofEvents o ⟨text⟩ p es := by
  rw [complete] at h
  cases hpass : (pass text parse).toExcept with
  | error fault =>
    rw [hpass] at h
    cases h
  | ok es =>
    rw [hpass] at h
    exact ⟨es, rfl, (Except.ok.inj h).symm⟩

theorem offer_of_mem {d : Document} {es : List Event} {i : Completion}
    (h : i ∈ ofEvents o d p es) :
    ∃ r, regionAt? p es = some r ∧
      let start := max (d.offsetAt ⟨p.line, 0⟩) r.range.span.start
      start ≤ d.offsetAt p ∧
        Offer o d r.context (d.offsetAt p) (trimStart (d.textIn ⟨start, d.offsetAt p⟩))
          (ofEvents o d p es) := by
  rw [ofEvents] at h ⊢
  cases hregion : regionAt? p es with
  | none =>
    rw [hregion] at h
    cases h
  | some r =>
    rw [hregion, Option.map_some, Option.getD_some, inRegion] at h
    rw [Option.map_some, Option.getD_some, inRegion]
    split at h
    · cases h
    · next hstart =>
      rw [if_neg hstart]
      exact ⟨r, rfl, Nat.le_of_not_lt hstart, offer_offered ..⟩

theorem OffersRecognised.directive {e : DirectiveEvent}
    (h : OffersRecognised e.context items) (he : .directive e ∈ (pass text parse).events) :
    (e.definition.isSome = true ↔ e.key.text ∈ items.map label) ∧
      ∀ i ∈ items, i.label = e.key.text → i.isScopedKey = e.isScoped := by
  obtain ⟨hlookup, hscoped⟩ := (Source.made_of_passWith he).lookup?
  have hrecognised : Registry.builtin.lookup? e.key.text e.context =
      e.definition.map (⟨·, e.isScoped⟩) := hlookup
  constructor
  · rw [h.labels, hrecognised, Option.isSome_map]
  · intro i hi hlabel
    have hmem : e.key.text ∈ items.map label := hlabel ▸ List.mem_map_of_mem hi
    rw [h.labels, hrecognised, Option.isSome_map] at hmem
    obtain ⟨d, hd⟩ := Option.isSome_iff_exists.mp hmem
    rw [hd] at hrecognised
    exact h.marks i hi ⟨d, e.isScoped⟩ (hlabel ▸ hrecognised)

/-- The keys offered in a context are the texts that are recognised there, each
of them once, and marked as scoped if they are recognised as scoped. So wherever
a document is offered keys, they are the ones by which the directives of such a
region are recognised, in this document and in any that it is edited into. -/
theorem keys_recognised :
    (∀ context range, OffersRecognised context (keys context range)) ∧
    ∀ (o : Resolved) (text : List Char) (parse : Markdown.Parser) (p : Position)
      (items : List Completion),
      complete o text p parse = .ok items → (∃ i ∈ items, i.kind = .property) →
      ∃ es r, (pass text parse).toExcept = .ok es ∧ regionAt? p es = some r ∧
        OffersRecognised r.context items ∧
        ∀ text' parse' e, .directive e ∈ (pass text' parse').events → e.context = r.context →
          (e.definition.isSome = true ↔ e.key.text ∈ items.map label) ∧
          ∀ i ∈ items, i.label = e.key.text → i.isScopedKey = e.isScoped := by
  refine ⟨keys_offer, ?_⟩
  rintro o text parse p items hitems ⟨i, hi, hkind⟩
  obtain ⟨es, hpass, rfl⟩ := complete_eq_ok hitems
  obtain ⟨r, hregion, -, hoffer⟩ := offer_of_mem hi
  obtain ⟨range, hkeys⟩ := hoffer.keys_of_mem hi hkind
  have hoffers : OffersRecognised r.context (ofEvents o ⟨text⟩ p es) := by
    rw [hkeys]
    exact keys_offer r.context range
  refine ⟨es, r, hpass, hregion, hoffers, fun text' parse' e he hcontext => ?_⟩
  rw [← hcontext] at hoffers
  exact hoffers.directive he

/-- Keys offered within a comment, and a document that one of them was inserted
into. -/
theorem keys_recognised_comment :
    let text := "<!-- _cl -->".toList
    let inserted := "<!-- _class:  -->".toList
    ∃ items, complete Options.standard.resolve text ⟨0, 8⟩ = .ok items ∧
      (∃ i ∈ items, i.label = "_class".toList ∧ i.kind = .property) ∧
      (items.map label).Nodup ∧ "_theme".toList ∉ items.map label ∧
      "marp".toList ∉ items.map label ∧
      ∃ e, .directive e ∈ (pass inserted).events ∧ e.key.text = "_class".toList ∧
        e.definition.isSome = true ∧ e.isScoped = true := by
  intro text inserted
  let items := keys .comment ⟨⟨0, 5⟩, ⟨0, 8⟩, ⟨5, 8⟩⟩
  have hitems : complete Options.standard.resolve text ⟨0, 8⟩ = .ok items := by decide +kernel
  have hclass : ∃ i ∈ items, i.label = "_class".toList ∧ i.kind = .property ∧
      i.isScopedKey = true := by decide +kernel
  have hinserted : ∃ e ∈ (pass inserted).events.filterMap Event.directive?,
      e.key.text = "_class".toList ∧ e.context = .comment := by decide +kernel
  have hcomment : ∀ es, (pass text).toExcept = .ok es →
      (regionAt? ⟨0, 8⟩ es).map Region.context = some .comment := by
    have hevents : (pass text).fault = none ∧
        (regionAt? ⟨0, 8⟩ (pass text).events).map Region.context = some .comment := by
      decide +kernel
    intro es hes
    rw [Delivery.toExcept, hevents.1] at hes
    rw [← Except.ok.inj hes]
    exact hevents.2
  obtain ⟨i, hi, hlabel, hkind, hscoped⟩ := hclass
  obtain ⟨e, he, hkey, hcontext⟩ := hinserted
  obtain ⟨es, r, hpass, hregion, hoffers, hevents⟩ :=
    keys_recognised.2 _ _ _ _ _ hitems ⟨i, hi, hkind⟩
  have hr : r.context = .comment := by
    have hsome := hcomment es hpass
    rw [hregion] at hsome
    exact Option.some.inj hsome
  have hmem : .directive e ∈ (pass inserted).events := mem_filterMap_directive?.mp he
  obtain ⟨hknown, hmarks⟩ := hevents inserted _ e hmem (hcontext.trans hr.symm)
  refine ⟨items, hitems, ⟨i, hi, hlabel, hkind⟩, hoffers.once, by decide +kernel,
    by decide +kernel, e, hmem, hkey, hknown.mpr ?_, ?_⟩
  · rw [hkey, ← hlabel]
    exact List.mem_map_of_mem hi
  · rw [← hmarks i hi (hlabel.trans hkey.symm), hscoped]

end Documents

end SlideDirectives.Editor.Completion
