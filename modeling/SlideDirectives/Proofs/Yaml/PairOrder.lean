import SlideDirectives.Proofs.Yaml.EntryScan
import SlideDirectives.Proofs.Yaml.PairPlace

/-!
# Pairs in order

The pairs of an outline stand in the order of the entries that they come from,
and have their places.
-/

set_option autoImplicit false

namespace SlideDirectives.Yaml

open Text

section Places

def Entry.places (e : Entry) : Span × Option Span :=
  (e.key, e.value)

def Pair.places (p : Pair) : Span × Option Span :=
  (p.key.span, p.value.map Item.span)

namespace Outline

variable {decode : Decoder} {source : List Char}

theorem places_locate (es : List Entry) (unused : List (Value × Value)) :
    ((locate decode source es unused).map Pair.places).Sublist (es.map Entry.places) := by
  induction es generalizing unused with
  | nil => exact List.Sublist.refl _
  | cons e es ih =>
    rw [locate]
    split
    · exact (ih unused).cons _
    · rename_i v rest _
      have hplaces : ∀ key, Pair.places ⟨⟨key, e.key⟩,
          e.value.map (fun s => ⟨valueText (slice source s) v, s⟩)⟩ = e.places := by
        intro key
        cases hvalue : e.value <;> simp [Pair.places, Entry.places, hvalue]
      rw [List.map_cons, List.map_cons, hplaces]
      exact (ih rest).cons_cons _

theorem places_locateEach? {es : List Entry} {ps : List Pair}
    (h : locateEach? decode source es = some ps) :
    (ps.map Pair.places).Sublist (es.map Entry.places) := by
  induction es generalizing ps with
  | nil =>
    obtain rfl := Option.some.inj h
    exact List.Sublist.refl _
  | cons e es ih =>
    simp only [locateEach?] at h
    split at h
    · cases h
    · rename_i found _
      obtain ⟨qs, hqs, rfl⟩ := Option.map_eq_some_iff.mp h
      rw [List.map_append]
      exact (places_locate [e] found).append (ih hqs)
    · exact (ih h).cons _

theorem places_ofValue (v : Value) :
    ((ofValue decode source v).pairs.map Pair.places).Sublist
      ((entries source).map Entry.places) := by
  cases v with
  | tagged tag v =>
    rw [ofValue]
    exact places_ofValue v
  | mapping found =>
    rw [ofValue]
    exact places_locate _ found
  | _ =>
    rw [ofValue]
    exact List.nil_sublist _

theorem places_readWith (decode : Decoder) (source : List Char) :
    ((readWith decode source).pairs.map Pair.places).Sublist
      ((entries source).map Entry.places) := by
  simp only [readWith]
  split
  · exact List.nil_sublist _
  · split
    · exact places_ofValue _
    · split
      · split
        · exact List.nil_sublist _
        · exact List.nil_sublist _
        · rename_i ps _ hps
          exact places_locateEach? hps
      · exact List.nil_sublist _

end Outline

/-- The key starts somewhere and ends before the value does, in a body of the
given size. -/
structure Pair.Lies (p : Pair) (size : Nat) : Prop where
  key_lt : p.key.span.start < p.key.span.stop
  key_le : p.key.span.stop ≤ size
  apart : ∀ v, p.value = some v → p.key.span.stop < v.span.start
  value_le : ∀ v, p.value = some v → v.span.start ≤ v.span.stop ∧ v.span.stop ≤ size

def Pair.stop (p : Pair) : Nat :=
  ((p.value.map Item.span).getD p.key.span).stop

theorem Pair.Lies.stop_le {p : Pair} {size : Nat} (h : p.Lies size) : p.stop ≤ size := by
  rw [Pair.stop]
  cases hvalue : p.value with
  | none => exact h.key_le
  | some v => exact (h.value_le v hvalue).2

variable {source : List Char}

theorem Outline.pairs_lie {decode : Decoder} {p : Pair} (hp : p ∈ (readWith decode source).pairs) :
    p.Lies (byteSize source) := by
  obtain ⟨e, he, hof⟩ := mem_pairs_readWith hp
  have hlies := (Entry.entries_ordered source).2 e he
  have hfits := Entry.entries_fit source e he
  have hkey : p.key.span = e.key := congrArg Item.span hof.key
  have hvalue : ∀ v, p.value = some v → e.value = some v.span := by
    intro v hv
    rw [← hof.value, hv]
    rfl
  constructor
  · rw [hkey]
    exact hlies.key_lt
  · rw [hkey]
    exact hfits.key.bounded
  · intro v hv
    rw [hkey]
    exact hlies.apart v.span (hvalue v hv)
  · intro v hv
    have hspan := hfits.value v.span (hvalue v hv)
    exact ⟨hspan.ordered, hspan.bounded⟩

theorem Outline.pairs_spaced (decode : Decoder) (source : List Char) :
    (readWith decode source).pairs.Pairwise (fun p q => p.stop < q.key.span.start) := by
  have hentries : ((entries source).map Entry.places).Pairwise
      (fun a b => (a.2.getD a.1).stop < b.1.start) := by
    rw [List.pairwise_map]
    refine (Entry.entries_ordered source).1.imp ?_
    intro a b hab
    cases hvalue : a.value with
    | none => simpa [Entry.places, hvalue] using Nat.lt_of_le_of_lt hab.key_le hab.stop_lt
    | some v => simpa [Entry.places, hvalue] using hab.value_lt v hvalue
  have hpairs := hentries.sublist (places_readWith decode source)
  rw [List.pairwise_map] at hpairs
  exact hpairs

end Places

end SlideDirectives.Yaml
