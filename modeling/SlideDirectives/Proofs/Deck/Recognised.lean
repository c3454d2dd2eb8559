import Mathlib.Data.List.Nodup
import SlideDirectives.Directive.Builtin
import SlideDirectives.Proofs.Deck.Visit

/-!
# Recognised directives

Every directive of a pass comes from a pair of front matter or of a comment,
looked up once. So its definition, if it has one, is one of the registry's, and
where names are distinct a name stands for one definition throughout the pass.
-/

set_option autoImplicit false

namespace SlideDirectives

namespace Registry

theorem mem_of_get? {r : Registry} {name : List Char} {d : Definition} (h : r.get? name = some d) :
    d ∈ r.definitions ∧ d.name = name := by
  have hname := List.find?_some h
  exact ⟨List.mem_of_find?_eq_some h, by simpa using hname⟩

theorem mem_of_lookup? {r : Registry} {key : List Char} {context : Context} {found : Recognised}
    (h : r.lookup? key context = some found) : found.definition ∈ r.definitions := by
  rw [lookup?, Option.or_eq_some_iff] at h
  rcases h with h | ⟨-, h⟩
  · obtain ⟨d, hd, rfl⟩ := Option.map_eq_some_iff.mp h
    exact (mem_of_get? (Option.filter_eq_some_iff.mp hd).1).1
  · unfold scoped? at h
    split at h
    · obtain ⟨d, hd, rfl⟩ := Option.map_eq_some_iff.mp h
      exact (mem_of_get? (Option.filter_eq_some_iff.mp hd).1).1
    · cases h

/-- Each name has one definition. -/
def Distinct (r : Registry) : Prop :=
  (r.definitions.map Definition.name).Nodup

theorem Distinct.eq_of_name {r : Registry} (h : r.Distinct) {d d' : Definition}
    (hd : d ∈ r.definitions) (hd' : d' ∈ r.definitions) (hname : d.name = d'.name) : d = d' :=
  List.inj_on_of_nodup_map h hd hd' hname

theorem Distinct.get?_eq_some {r : Registry} (h : r.Distinct) {name : List Char} {d : Definition} :
    r.get? name = some d ↔ d ∈ r.definitions ∧ d.name = name := by
  refine ⟨mem_of_get?, fun ⟨hd, hname⟩ => ?_⟩
  obtain ⟨d', hd'⟩ : ∃ d', r.get? name = some d' := by
    refine Option.isSome_iff_exists.mp (List.find?_isSome.mpr ⟨d, hd, beq_iff_eq.mpr hname⟩)
  obtain ⟨hmem, hname'⟩ := mem_of_get? hd'
  rw [hd', h.eq_of_name hmem hd (hname'.trans hname.symm)]

theorem builtin_distinct : builtin.Distinct := by
  unfold Distinct
  decide +kernel

end Registry

namespace Deck

namespace Source

open Text

variable {s : Source} {e : DirectiveEvent}

/-- Where a directive was written, and the pair that it was made of. -/
def Made (s : Source) (e : DirectiveEvent) : Prop :=
  ∃ offset context p, e = s.directive offset context p

theorem made_of_passWith {parse : Markdown.Parser}
    (h : .directive e ∈ (s.passWith parse).events) : s.Made e := by
  rcases mem_passWith h with h | h | ⟨f, -, hfrom⟩ | ⟨n, -, hfrom⟩
  · cases h
  · cases h
  · cases hfrom
    exact ⟨_, _, _, rfl⟩
  · cases hfrom
    exact ⟨_, _, _, rfl⟩

theorem Made.mem_definitions (h : s.Made e) {d : Definition} (hd : e.definition = some d) :
    d ∈ s.registry.definitions := by
  obtain ⟨offset, context, p, rfl⟩ := h
  obtain ⟨found, hfound, rfl⟩ := Option.map_eq_some_iff.mp hd
  exact Registry.mem_of_lookup? hfound

end Source

end Deck

end SlideDirectives
