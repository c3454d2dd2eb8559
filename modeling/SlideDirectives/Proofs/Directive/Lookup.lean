import Mathlib.Data.Set.Subsingleton
import SlideDirectives.Proofs.Deck.Recognised

/-!
# Recognised keys

With distinct names a key can only be meant for one directive by its name, and
for one by its scoped spelling. The name comes first, as long as the context
allows the directive; the directives of a pass are recognised by this rule.
-/

set_option autoImplicit false

namespace SlideDirectives

namespace Registry

section Rule

variable (r : Registry) (key : List Char) (context : Context) (d : Definition)

/-- The key is the name of the directive. -/
structure Names : Prop where
  declared : d ∈ r.definitions
  name : d.name = key
  allowed : d.allows context = true

/-- The key is the scoped spelling of the directive. -/
structure Scopes : Prop where
  declared : d ∈ r.definitions
  ofSlide : d.scope = .slide
  allowed : d.allows context = true
  spelling : key = '_' :: d.name

end Rule

section Found

variable {r : Registry} {key : List Char} {context : Context} {d d' : Definition}

theorem Names.unique (hr : r.Distinct) (h : r.Names key context d) (h' : r.Names key context d') :
    d = d' :=
  hr.eq_of_name h.declared h'.declared (h.name.trans h'.name.symm)

theorem Scopes.unique (hr : r.Distinct) (h : r.Scopes key context d)
    (h' : r.Scopes key context d') : d = d' :=
  hr.eq_of_name h.declared h'.declared (List.cons.inj (h.spelling.symm.trans h'.spelling)).2

theorem plain?_eq_some {m : Recognised} (hr : r.Distinct) :
    r.plain? key context = some m ↔ r.Names key context m.definition ∧ m.isScoped = false := by
  rw [plain?, Option.map_eq_some_iff]
  constructor
  · rintro ⟨d, hd, rfl⟩
    obtain ⟨hget, hallowed⟩ := Option.filter_eq_some_iff.mp hd
    obtain ⟨hmem, hname⟩ := mem_of_get? hget
    exact ⟨⟨hmem, hname, hallowed⟩, rfl⟩
  · obtain ⟨d, isScoped⟩ := m
    rintro ⟨⟨hmem, hname, hallowed⟩, rfl⟩
    exact ⟨d, Option.filter_eq_some_iff.mpr ⟨hr.get?_eq_some.mpr ⟨hmem, hname⟩, hallowed⟩, rfl⟩

theorem scoped?_eq_some {m : Recognised} (hr : r.Distinct) :
    r.scoped? key context = some m ↔ r.Scopes key context m.definition ∧ m.isScoped = true := by
  unfold scoped?
  split
  · next name =>
    rw [Option.map_eq_some_iff]
    constructor
    · rintro ⟨d, hd, rfl⟩
      obtain ⟨hget, hfits⟩ := Option.filter_eq_some_iff.mp hd
      obtain ⟨hmem, rfl⟩ := mem_of_get? hget
      obtain ⟨hlocal, hallowed⟩ := Bool.and_eq_true_iff.mp hfits
      exact ⟨⟨hmem, beq_iff_eq.mp hlocal, hallowed, rfl⟩, rfl⟩
    · obtain ⟨d, isScoped⟩ := m
      rintro ⟨⟨hmem, hlocal, hallowed, hspelling⟩, rfl⟩
      obtain ⟨-, rfl⟩ := List.cons.inj hspelling
      refine ⟨d, Option.filter_eq_some_iff.mpr ⟨hr.get?_eq_some.mpr ⟨hmem, rfl⟩, ?_⟩, rfl⟩
      exact Bool.and_eq_true_iff.mpr ⟨beq_iff_eq.mpr hlocal, hallowed⟩
  · next hother =>
    constructor
    · intro h
      cases h
    · rintro ⟨h, -⟩
      exact absurd h.spelling (hother _)

/-- The scoped spelling only counts where nothing goes by the name. -/
theorem lookup?_eq_some {m : Recognised} (hr : r.Distinct) :
    r.lookup? key context = some m ↔ r.Names key context m.definition ∧ m.isScoped = false ∨
      (∀ d, ¬ r.Names key context d) ∧ r.Scopes key context m.definition ∧ m.isScoped = true := by
  have hnone : r.plain? key context = none ↔ ∀ d, ¬ r.Names key context d := by
    rw [Option.eq_none_iff_forall_ne_some]
    constructor
    · intro h d hd
      exact h ⟨d, false⟩ ((plain?_eq_some hr).mpr ⟨hd, rfl⟩)
    · intro h m hm
      exact h _ ((plain?_eq_some hr).mp hm).1
  rw [lookup?, Option.or_eq_some_iff, plain?_eq_some hr, hnone, scoped?_eq_some hr]

theorem lookup?_eq_none (hr : r.Distinct) : r.lookup? key context = none ↔
    ∀ d, ¬ r.Names key context d ∧ ¬ r.Scopes key context d := by
  rw [Option.eq_none_iff_forall_ne_some]
  constructor
  · intro h d
    have hplain : ¬ r.Names key context d :=
      fun hd => h ⟨d, false⟩ ((lookup?_eq_some hr).mpr (Or.inl ⟨hd, rfl⟩))
    refine ⟨hplain, fun hd => h ⟨d, true⟩ ((lookup?_eq_some hr).mpr (Or.inr ⟨?_, hd, rfl⟩))⟩
    exact fun d' hd' => h ⟨d', false⟩ ((lookup?_eq_some hr).mpr (Or.inl ⟨hd', rfl⟩))
  · intro h m hm
    rcases (lookup?_eq_some hr).mp hm with ⟨hnames, -⟩ | ⟨-, hscopes, -⟩
    · exact (h _).1 hnames
    · exact (h _).2 hscopes

end Found

theorem lookup?_perm {r r' : Registry} (h : r'.definitions.Perm r.definitions) (hr : r.Distinct) :
    r'.lookup? = r.lookup? := by
  have hr' : r'.Distinct := (h.map Definition.name).nodup_iff.mpr hr
  have hnames : ∀ key context d, r'.Names key context d ↔ r.Names key context d :=
    fun _ _ _ => ⟨fun hd => { hd with declared := h.mem_iff.mp hd.declared },
      fun hd => { hd with declared := h.mem_iff.mpr hd.declared }⟩
  have hscopes : ∀ key context d, r'.Scopes key context d ↔ r.Scopes key context d :=
    fun _ _ _ => ⟨fun hd => { hd with declared := h.mem_iff.mp hd.declared },
      fun hd => { hd with declared := h.mem_iff.mpr hd.declared }⟩
  funext key context
  refine Option.ext fun m => ?_
  simp only [lookup?_eq_some hr, lookup?_eq_some hr', hnames, hscopes]

end Registry

namespace Deck.Source

variable {s : Source} {e : DirectiveEvent}

theorem Made.lookup? (h : s.Made e) :
    s.registry.lookup? e.key.text e.context = e.definition.map (⟨·, e.isScoped⟩) ∧
      (e.isScoped = true → e.definition.isSome = true) := by
  obtain ⟨offset, context, p, rfl⟩ := h
  simp only [directive, ranged]
  cases s.registry.lookup? p.key.text context <;> simp

/-- With distinct names a key is recognised by the name of a directive that its
context allows, or else by the scoped spelling of one, and neither leaves a
choice. So every directive of a pass carries a definition that its context
allows and that its key spells. -/
theorem lookup_two_steps (s : Source) (hr : s.registry.Distinct)
    (parse : Markdown.Parser) :
    (∀ key context,
      (∀ d, s.registry.lookup? key context = some ⟨d, false⟩ ↔ s.registry.Names key context d) ∧
      (∀ d, s.registry.lookup? key context = some ⟨d, true⟩ ↔
        (∀ d', ¬ s.registry.Names key context d') ∧ s.registry.Scopes key context d) ∧
      (s.registry.lookup? key context = none ↔
        ∀ d, ¬ s.registry.Names key context d ∧ ¬ s.registry.Scopes key context d) ∧
      {d | s.registry.Names key context d}.Subsingleton ∧
      {d | s.registry.Scopes key context d}.Subsingleton) ∧
    (∀ r : Registry, r.definitions.Perm s.registry.definitions →
      r.lookup? = s.registry.lookup?) ∧
    ∀ e, .directive e ∈ (s.passWith parse).events →
      (∀ d, e.definition = some d → d.allows e.context = true ∧
        (e.isScoped = false → e.key.text = d.name) ∧
        (e.isScoped = true → e.key.text = '_' :: d.name ∧ d.scope = .slide)) ∧
      (e.isScoped = true → e.definition.isSome = true) := by
  refine ⟨fun key context => ⟨fun d => ?_, fun d => ?_, Registry.lookup?_eq_none hr, ?_, ?_⟩,
    fun r hperm => Registry.lookup?_perm hperm hr, fun e he => ?_⟩
  · simp [Registry.lookup?_eq_some hr]
  · simp [Registry.lookup?_eq_some hr]
  · exact fun d hd d' hd' => Registry.Names.unique hr hd hd'
  · exact fun d hd d' hd' => Registry.Scopes.unique hr hd hd'
  · obtain ⟨hlookup, hscoped⟩ := (made_of_passWith he).lookup?
    refine ⟨fun d hd => ?_, hscoped⟩
    rw [hd, Option.map_some, Registry.lookup?_eq_some hr] at hlookup
    rcases hlookup with ⟨hnames, hplain⟩ | ⟨-, hscopes, htrue⟩
    · exact ⟨hnames.allowed, fun _ => hnames.name.symm,
        fun htrue => Bool.noConfusion (htrue.symm.trans hplain)⟩
    · exact ⟨hscopes.allowed, fun hfalse => Bool.noConfusion (htrue.symm.trans hfalse),
        fun _ => ⟨hscopes.spelling, hscopes.ofSlide⟩⟩

/-- A name that is the scoped spelling of another is only allowed in front
matter. -/
theorem lookup_two_steps_underscore :
    let whole : Definition := ⟨"_class".toList, .whole, [.frontMatter], .core, "", "", false⟩
    let slide : Definition := ⟨"class".toList, .slide, Builtin.anywhere, .core, "", "", false⟩
    let s : Source := ⟨⟨"---\n_class: a\n---\n<!-- _class: b -->".toList⟩, ⟨[whole, slide]⟩⟩
    s.registry.Distinct ∧
      s.registry.lookup? "_class".toList .frontMatter = some ⟨whole, false⟩ ∧
      s.registry.lookup? "_class".toList .comment = some ⟨slide, true⟩ ∧
      (Registry.mk [slide, whole]).lookup? = s.registry.lookup? ∧
      (s.pass.events.filterMap Event.directive?).map (fun e => (e.definition, e.isScoped)) =
        [(some whole, false), (some slide, true)] ∧
      ∀ e, .directive e ∈ s.pass.events → e.isScoped = true → ∃ d, e.definition = some d ∧
        d.allows e.context = true ∧ e.key.text = '_' :: d.name ∧ d.scope = .slide := by
  intro whole slide s
  have hr : s.registry.Distinct := by
    unfold Registry.Distinct
    decide
  obtain ⟨hlookup, horder, hevents⟩ := lookup_two_steps s hr (Markdown.parse .slideDeck)
  obtain ⟨hnames, -⟩ := hlookup "_class".toList .frontMatter
  obtain ⟨-, hscopes, -⟩ := hlookup "_class".toList .comment
  refine ⟨hr, (hnames whole).mpr ⟨by simp [s], rfl, rfl⟩, (hscopes slide).mpr ⟨?_, ?_⟩,
    horder ⟨[slide, whole]⟩ (List.Perm.swap whole slide []), by decide +kernel, ?_⟩
  · rintro d ⟨hmem, hname, hallowed⟩
    rcases List.mem_cons.mp hmem with rfl | hmem
    · cases hallowed
    · obtain rfl := List.mem_singleton.mp hmem
      cases hname
  · exact ⟨by simp [s], rfl, rfl, rfl⟩
  · intro e he hscoped
    obtain ⟨hrecognised, hsome⟩ := hevents e he
    obtain ⟨d, hd⟩ := Option.isSome_iff_exists.mp (hsome hscoped)
    obtain ⟨hallowed, -, hkey⟩ := hrecognised d hd
    exact ⟨d, hd, hallowed, hkey hscoped⟩

end Deck.Source

end SlideDirectives
