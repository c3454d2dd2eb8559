import Mathlib.Data.List.Forall2
import Mathlib.Data.List.Perm.Subperm
import SlideDirectives.Proofs.Yaml.Blank
import SlideDirectives.Proofs.Yaml.Distinct
import SlideDirectives.Proofs.Yaml.PairPlace

/-!
# The entries of a mapping that are located

Each entry of the scan takes the first entry of the decoded mapping that has
its key and that no entry before it took. So every pair stands for an entry of
the mapping of its own, and none is lost if the lines of the text spell all
keys.
-/

set_option autoImplicit false

namespace SlideDirectives.Yaml

open Text

namespace Outline

variable {decode : Decoder} {source : List Char}

/-- The pair stands for an entry of a mapping, whose key is written at `e`. -/
structure Shows (decode : Decoder) (source : List Char) (e : Entry) (x : Value × Value)
    (p : Pair) : Prop where
  place : p.IsOf decode source e
  key : isKey decode (slice source e.key) x.1 = true
  value : ∀ v, p.value = some v → v.text = valueText (slice source v.span) x.2

theorem takeKey_none {f : Value → Bool} {es : List (Value × Value)} (h : takeKey f es = none) :
    ∀ x ∈ es, f x.1 = false := by
  induction es with
  | nil => simp
  | cons x es ih =>
    rw [takeKey] at h
    split at h
    · cases h
    · rename_i hx
      rw [Option.map_eq_none_iff] at h
      intro y hy
      rcases List.mem_cons.mp hy with rfl | hy
      · exact eq_false_of_ne_true hx
      · exact ih h y hy

theorem takeKey_some {f : Value → Bool} {es rest : List (Value × Value)} {v : Value}
    (h : takeKey f es = some (v, rest)) :
    ∃ before k behind, es = before ++ (k, v) :: behind ∧ f k = true ∧ rest = before ++ behind := by
  induction es generalizing rest with
  | nil => cases h
  | cons x es ih =>
    rw [takeKey] at h
    split at h
    · rename_i hx
      cases h
      exact ⟨[], x.1, es, rfl, hx, rfl⟩
    · obtain ⟨⟨w, others⟩, htake, heq⟩ := Option.map_eq_some_iff.mp h
      cases heq
      obtain ⟨before, k, behind, rfl, hk, rfl⟩ := ih htake
      exact ⟨x :: before, k, behind, rfl, hk, rfl⟩

theorem shows_pair {e : Entry} {k : Value} (hk : isKey decode (slice source e.key) k = true)
    (v : Value) : Shows decode source e (k, v)
      ⟨⟨unquote decode (slice source e.key), e.key⟩,
        e.value.map (fun s => ⟨valueText (slice source s) v, s⟩)⟩ := by
  refine ⟨⟨rfl, ?_⟩, hk, ?_⟩
  · cases e.value <;> rfl
  · intro item hitem
    obtain ⟨s, -, rfl⟩ := Option.map_eq_some_iff.mp hitem
    rfl

/-- What the entries of a scan find in a mapping, and what is left of it. -/
structure Found (decode : Decoder) (source : List Char) (es : List Entry)
    (mapping shown lost : List (Value × Value)) (pairs : List Pair) : Prop where
  perm : (shown ++ lost).Perm mapping
  shows : List.Forall₂ (fun p x => ∃ e ∈ es, Shows decode source e x p) pairs shown
  lost : ∀ e ∈ es, (∃ x ∈ shown, isKey decode (slice source e.key) x.1 = true) ∨
    ∀ x ∈ lost, isKey decode (slice source e.key) x.1 = false

theorem forall₂_shows_mono {es es' : List Entry} {ps : List Pair} {shown : List (Value × Value)}
    (hsub : es ⊆ es') (h : List.Forall₂ (fun p x => ∃ e ∈ es, Shows decode source e x p) ps shown) :
    List.Forall₂ (fun p x => ∃ e ∈ es', Shows decode source e x p) ps shown := by
  refine h.imp ?_
  rintro p x ⟨e, he, hshows⟩
  exact ⟨e, hsub he, hshows⟩

theorem locate_found (decode : Decoder) (source : List Char) (es : List Entry)
    (mapping : List (Value × Value)) :
    ∃ shown lost, Found decode source es mapping shown lost (locate decode source es mapping) := by
  induction es generalizing mapping with
  | nil => exact ⟨[], mapping, List.Perm.refl _, List.Forall₂.nil, by simp⟩
  | cons e es ih =>
    rw [locate]
    cases htake : takeKey (isKey decode (slice source e.key)) mapping with
    | none =>
      obtain ⟨shown, lost, hfound⟩ := ih mapping
      refine ⟨shown, lost, hfound.perm, ?_, ?_⟩
      · exact forall₂_shows_mono (List.subset_cons_self e es) hfound.shows
      · intro e' he'
        rcases List.mem_cons.mp he' with rfl | he'
        · right
          intro x hx
          exact takeKey_none htake x (hfound.perm.subset (List.mem_append_right _ hx))
        · exact hfound.lost e' he'
    | some taken =>
      obtain ⟨v, rest⟩ := taken
      obtain ⟨before, k, behind, rfl, hk, rfl⟩ := takeKey_some htake
      obtain ⟨shown, lost, hfound⟩ := ih (before ++ behind)
      have hperm : ((k, v) :: shown ++ lost).Perm (before ++ (k, v) :: behind) :=
        (hfound.perm.cons (k, v)).trans List.perm_middle.symm
      refine ⟨(k, v) :: shown, lost, hperm, ?_, ?_⟩
      · refine List.Forall₂.cons ⟨e, List.mem_cons_self, shows_pair hk v⟩ ?_
        exact forall₂_shows_mono (List.subset_cons_self e es) hfound.shows
      · intro e' he'
        rcases List.mem_cons.mp he' with rfl | he'
        · exact Or.inl ⟨(k, v), List.mem_cons_self, hk⟩
        · rcases hfound.lost e' he' with ⟨x, hx, hkey⟩ | hlost
          · exact Or.inl ⟨x, List.mem_cons_of_mem _ hx, hkey⟩
          · exact Or.inr hlost

section Complete

open Value

theorem ofValue_entries? {v : Value} {found : List (Value × Value)} (h : v.entries? = some found) :
    ofValue decode source v = .mapping (locate decode source (entries source) found) := by
  cases v with
  | tagged tag v =>
    rw [ofValue]
    exact ofValue_entries? h
  | mapping es =>
    obtain rfl := Option.some.inj h
    rw [ofValue]
  | _ => cases h

theorem mem_keySpans {s : Span} : s ∈ Entry.keySpans 0 (lines source) ↔
    ∃ e ∈ entries source, e.key = s := by
  rw [← Entry.map_key_entries, List.mem_map]

theorem pairs_readWith {v : Value} {found : List (Value × Value)}
    (h : decode (clean source) = .ok v) (hv : v.entries? = some found) :
    (readWith decode source).pairs = locate decode source (entries source) found := by
  rw [readWith]
  cases hblank : (trim (clean source)).isEmpty with
  | true =>
    have hnone : entries source = [] := by
      rw [← List.map_eq_nil_iff (f := Entry.key), Entry.map_key_entries, keySpans_blank hblank]
    rw [hnone, locate]
    rfl
  | false => simp only [Bool.false_eq_true, if_false, h, ofValue_entries? hv, pairs]

theorem read_found {v : Value} {found : List (Value × Value)}
    (h : Yaml.decode (clean source) = .ok v) (hv : v.entries? = some found) :
    ∃ shown lost, Found Yaml.decode source (entries source) found shown lost
      (read source).pairs := by
  rw [read, pairs_readWith h hv]
  exact locate_found Yaml.decode source (entries source) found

theorem exists_shows {es : List Entry} {ps : List Pair} {shown : List (Value × Value)}
    (h : List.Forall₂ (fun p x => ∃ e ∈ es, Shows decode source e x p) ps shown)
    {x : Value × Value} (hx : x ∈ shown) : ∃ p, ∃ e ∈ es, Shows decode source e x p := by
  induction h with
  | nil => cases hx
  | cons hhead _ ih =>
    rcases List.mem_cons.mp hx with rfl | hx
    · exact ⟨_, hhead⟩
    · exact ih hx

theorem Found.not_mem_lost {found shown lost : List (Value × Value)} {ps : List Pair}
    (hf : Found decode source (entries source) found shown lost ps)
    (hnodup : (found.map Prod.fst).Nodup) {x : Value × Value} (hscalar : x.1.isScalar = true)
    {e : Entry} (he : e ∈ entries source) (hkey : decode (slice source e.key) = .ok x.1) : x ∉ lost := by
  intro hx
  have hisKey : ∀ y : Value × Value, isKey decode (slice source e.key) y.1 = x.1.same y.1 := by
    intro y
    simp only [isKey, hkey]
  rcases hf.lost e he with ⟨y, hy, hyx⟩ | hlost
  · rw [hisKey] at hyx
    have hsame : y.1 = x.1 := same_scalar hscalar hyx
    have hperm := (hf.perm.map Prod.fst).nodup_iff.mpr hnodup
    rw [List.map_append, List.nodup_append] at hperm
    exact hperm.2.2 _ (List.mem_map_of_mem hy) _ (List.mem_map_of_mem hx) hsame
  · have hself := hlost x hx
    rw [hisKey, same_self hscalar] at hself
    cases hself

/-- The pairs of a mapping stand for different entries of it. They stand for all
of them if each key of the mapping is spelled on a line that opens an entry, and
if they do, each key is one that such a line has. -/
theorem pairs_of_mapping {v : Value} {found : List (Value × Value)}
    (h : Yaml.decode (clean source) = .ok v) (hv : v.entries? = some found)
    (hscalar : ∀ x ∈ found, x.1.isScalar = true) :
    ∃ shown, shown.Subperm found ∧
      List.Forall₂ (fun p x => ∃ e ∈ entries source, Shows Yaml.decode source e x p)
        (read source).pairs shown ∧
      ((∀ x ∈ found, ∃ key ∈ Entry.keySpans 0 (lines source),
          Yaml.decode (slice source key) = .ok x.1) → shown.Perm found) ∧
      ((read source).pairs.length = found.length → ∀ x ∈ found,
        ∃ key ∈ Entry.keySpans 0 (lines source),
          isKey Yaml.decode (slice source key) x.1 = true) := by
  obtain ⟨shown, lost, hf⟩ := read_found h hv
  have hnodup : (found.map Prod.fst).Nodup := by
    rw [List.Nodup, List.pairwise_map]
    refine (Decode.decode_keysDiffer h found hv).imp_of_mem ?_
    intro x y hx _ hdiffer heq
    rw [← heq, same_self (hscalar x hx)] at hdiffer
    cases hdiffer
  refine ⟨shown, ?_, hf.shows, ?_, ?_⟩
  · exact (List.sublist_append_left shown lost).subperm.trans hf.perm.subperm
  · intro hspelled
    have hlost : lost = [] := by
      rw [List.eq_nil_iff_forall_not_mem]
      intro x hx
      have hfound := hf.perm.subset (List.mem_append_right shown hx)
      obtain ⟨key, hkey, hdecode⟩ := hspelled x hfound
      obtain ⟨e, he, rfl⟩ := mem_keySpans.mp hkey
      exact hf.not_mem_lost hnodup (hscalar x hfound) he hdecode hx
    have hperm := hf.perm
    rwa [hlost, List.append_nil] at hperm
  · intro hlength x hx
    have hlost : lost = [] := by
      have hall := hf.perm.length_eq
      rw [List.length_append, ← hf.shows.length_eq, hlength] at hall
      exact List.eq_nil_of_length_eq_zero (by omega)
    have hshown : x ∈ shown := by
      have hperm := hf.perm.symm.subset hx
      rwa [hlost, List.append_nil] at hperm
    obtain ⟨p, e, he, hshows⟩ := exists_shows hf.shows hshown
    exact ⟨e.key, mem_keySpans.mpr ⟨e, he, rfl⟩, hshows.key⟩

theorem pairs_of_mapping_quoted_key :
    let source := "'b c': 2\n1: |\n  x\n# n\ntrue : z".toList
    let found : List (Value × Value) :=
      [(.string "b c".toList, .number (.natural 2)), (.number (.natural 1), .string "x\n".toList),
        (.bool true, .string ['z'])]
    Yaml.decode (clean source) = .ok (.mapping found) ∧
      (∀ x ∈ found, x.1.isScalar = true) ∧
      Entry.keySpans 0 (lines source) = [⟨0, 5⟩, ⟨9, 10⟩, ⟨22, 26⟩] ∧
      ∃ shown, shown.Perm found ∧
        List.Forall₂ (fun p x => ∃ e ∈ entries source, Shows Yaml.decode source e x p)
          (read source).pairs shown := by
  intro source found
  have hdecode : Yaml.decode (clean source) = .ok (.mapping found) := by decide +kernel
  have hscalar : ∀ x ∈ found, x.1.isScalar = true := by decide
  obtain ⟨shown, -, hshows, hall, -⟩ := pairs_of_mapping hdecode rfl hscalar
  exact ⟨hdecode, hscalar, by decide +kernel, shown, hall (by decide +kernel), hshows⟩

/-- A key that starts with three dashes is taken for a marker. -/
theorem pairs_of_mapping_dashes :
    let source := "---a: 1".toList
    Yaml.decode (clean source) =
        .ok (.mapping [(.string "---a".toList, .number (.natural 1))]) ∧
      Entry.keySpans 0 (lines source) = [] ∧ (read source).pairs = [] := by
  decide +kernel

end Complete

end Outline

end SlideDirectives.Yaml
