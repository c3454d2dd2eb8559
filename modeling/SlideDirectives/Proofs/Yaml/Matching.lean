import Mathlib.Data.List.Nodup
import Mathlib.Data.Fintype.Card
import Mathlib.Order.Hom.Basic
import SlideDirectives.Proofs.Yaml.Located

/-!
# Entries of the scan matched with entries of a mapping

An entry of the scan takes an entry of the mapping that nothing before it took.
The places of both sides show which ones are matched: those of the scan come in
order, those of the mapping come once, and an entry of the scan that takes
nothing finds all entries with its key taken before it.
-/

set_option autoImplicit false

namespace SlideDirectives.Yaml

open Text

namespace Outline

variable {decode : Decoder} {source : List Char} {n : ℕ} {found : Fin n → Value × Value}

/-- The written key decodes to a key of the mapping, or it does not decode and
without its quotes it is the text of that key. -/
def Names (decode : Decoder) (raw : List Char) (key : Value) : Prop :=
  (∃ w, decode raw = .ok w ∧ w.same key = true) ∨
    ∃ fault, decode raw = .error fault ∧ keyText? key = some (unquote decode raw)

theorem isKey_iff {raw : List Char} {key : Value} :
    isKey decode raw key = true ↔ Names decode raw key := by
  rw [isKey, Names]
  cases decode raw with
  | ok w => simp
  | error fault => simp

theorem takeKey_map_none {p : Value → Bool} {ks : List (Fin n)}
    (h : takeKey p (ks.map found) = none) : ∀ k ∈ ks, p (found k).1 = false := by
  intro k hk
  exact takeKey_none h (found k) (List.mem_map_of_mem hk)

theorem takeKey_map_some {p : Value → Bool} {ks : List (Fin n)} {v : Value}
    {rest : List (Value × Value)} (h : takeKey p (ks.map found) = some (v, rest)) :
    ∃ before k behind, ks = before ++ k :: behind ∧ found k = ((found k).1, v) ∧
      p (found k).1 = true ∧ rest = (before ++ behind).map found := by
  obtain ⟨front, key, back, hks, hkey, rfl⟩ := takeKey_some h
  obtain ⟨before, later, rfl, rfl, hlater⟩ := List.map_eq_append_iff.mp hks
  obtain ⟨k, behind, rfl, hk, rfl⟩ := List.map_eq_cons_iff.mp hlater
  refine ⟨before, k, behind, rfl, ?_, ?_, List.map_append.symm⟩
  · rw [hk]
  · rw [hk]
    exact hkey

/-- The places `ms` of the entries of a scan and of the entries of a mapping
that they take. -/
structure Matching (decode : Decoder) (source : List Char) (found : Fin n → Value × Value)
    (es : List Entry) (ks : List (Fin n)) (ps : List Pair) (ms : List (ℕ × Fin n)) : Prop where
  inOrder : ms.Pairwise (fun a b => a.1 < b.1)
  nodup : (ms.map Prod.snd).Nodup
  mem : ∀ m ∈ ms, m.2 ∈ ks
  shows : List.Forall₂
    (fun p m => ∃ e, es[m.1]? = some e ∧ Shows decode source e (found m.2) p) ps ms
  dropped : ∀ j e, es[j]? = some e → (∀ m ∈ ms, m.1 ≠ j) → ∀ k ∈ ks,
    isKey decode (slice source e.key) (found k).1 = true → ∃ m ∈ ms, m.1 < j ∧ m.2 = k

def later (m : ℕ × Fin n) : ℕ × Fin n := (m.1 + 1, m.2)

namespace Matching

variable {e : Entry} {es : List Entry} {ks : List (Fin n)} {ps : List Pair} {p : Pair}
  {ms : List (ℕ × Fin n)}

theorem inOrder_later (h : ms.Pairwise (fun a b => a.1 < b.1)) :
    (ms.map later).Pairwise (fun a b => a.1 < b.1) := by
  rw [List.pairwise_map]
  apply h.imp
  intro a b hlt
  show a.1 + 1 < b.1 + 1
  omega

theorem map_snd_later : (ms.map later).map Prod.snd = ms.map Prod.snd := by
  rw [List.map_map]
  rfl

theorem shows_later
    (h : List.Forall₂ (fun p m => ∃ e, es[m.1]? = some e ∧ Shows decode source e (found m.2) p)
      ps ms) :
    List.Forall₂ (fun p m => ∃ e', (e :: es)[m.1]? = some e' ∧ Shows decode source e' (found m.2) p)
      ps (ms.map later) :=
  List.forall₂_map_right_iff.mpr h

theorem skip (h : Matching decode source found es ks ps ms)
    (hnone : ∀ k ∈ ks, isKey decode (slice source e.key) (found k).1 = false) :
    Matching decode source found (e :: es) ks ps (ms.map later) where
  inOrder := inOrder_later h.inOrder
  nodup := by
    rw [map_snd_later]
    exact h.nodup
  mem := by
    intro m hm
    obtain ⟨m', hm', rfl⟩ := List.mem_map.mp hm
    exact h.mem m' hm'
  shows := shows_later h.shows
  dropped := by
    intro j e' hj hfree k hk hkey
    cases j with
    | zero =>
      cases hj
      rw [hnone k hk] at hkey
      cases hkey
    | succ j =>
      have hfree' : ∀ m ∈ ms, m.1 ≠ j := by
        intro m hm heq
        exact hfree (later m) (List.mem_map_of_mem hm) (congrArg (· + 1) heq)
      obtain ⟨m, hm, hlt, rfl⟩ := h.dropped j e' hj hfree' k hk hkey
      exact ⟨later m, List.mem_map_of_mem hm, Nat.succ_lt_succ hlt, rfl⟩

theorem take {before behind : List (Fin n)} {k : Fin n}
    (h : Matching decode source found es (before ++ behind) ps ms)
    (hnodup : (before ++ k :: behind).Nodup) (hp : Shows decode source e (found k) p) :
    Matching decode source found (e :: es) (before ++ k :: behind) (p :: ps)
      ((0, k) :: ms.map later) where
  inOrder := by
    rw [List.pairwise_cons]
    refine ⟨?_, inOrder_later h.inOrder⟩
    intro m hm
    obtain ⟨m', -, rfl⟩ := List.mem_map.mp hm
    exact Nat.succ_pos m'.1
  nodup := by
    rw [List.map_cons, map_snd_later, List.nodup_cons]
    refine ⟨?_, h.nodup⟩
    intro hk
    obtain ⟨m, hm, heq⟩ := List.mem_map.mp hk
    have hmem := h.mem m hm
    rw [heq] at hmem
    exact (List.nodup_cons.mp (List.nodup_middle.mp hnodup)).1 hmem
  mem := by
    intro m hm
    rcases List.mem_cons.mp hm with rfl | hm
    · exact List.mem_append_right _ List.mem_cons_self
    · obtain ⟨m', hm', rfl⟩ := List.mem_map.mp hm
      have hmem := h.mem m' hm'
      show m'.2 ∈ before ++ k :: behind
      simp only [List.mem_append, List.mem_cons] at hmem ⊢
      tauto
  shows := List.Forall₂.cons ⟨e, rfl, hp⟩ (shows_later h.shows)
  dropped := by
    intro j e' hj hfree l hl hkey
    cases j with
    | zero => exact absurd rfl (hfree (0, k) List.mem_cons_self)
    | succ j =>
      by_cases hlk : l = k
      · exact ⟨(0, k), List.mem_cons_self, Nat.succ_pos j, hlk.symm⟩
      · have hfree' : ∀ m ∈ ms, m.1 ≠ j := by
          intro m hm heq
          exact hfree (later m) (List.mem_cons_of_mem _ (List.mem_map_of_mem hm))
            (congrArg (· + 1) heq)
        have hl' : l ∈ before ++ behind := by
          simp only [List.mem_append, List.mem_cons, hlk, false_or] at hl ⊢
          exact hl
        obtain ⟨m, hm, hlt, rfl⟩ := h.dropped j e' hj hfree' l hl' hkey
        exact ⟨later m, List.mem_cons_of_mem _ (List.mem_map_of_mem hm), Nat.succ_lt_succ hlt, rfl⟩

end Matching

theorem exists_matching (decode : Decoder) (source : List Char) (found : Fin n → Value × Value)
    (es : List Entry) (ks : List (Fin n)) (hnodup : ks.Nodup) :
    ∃ ms, Matching decode source found es ks (locate decode source es (ks.map found)) ms := by
  induction es generalizing ks with
  | nil => exact ⟨[], List.Pairwise.nil, List.nodup_nil, by simp, List.Forall₂.nil, by simp⟩
  | cons e es ih =>
    rw [locate]
    cases htake : takeKey (isKey decode (slice source e.key)) (ks.map found) with
    | none =>
      obtain ⟨ms, hms⟩ := ih ks hnodup
      exact ⟨ms.map later, hms.skip (takeKey_map_none htake)⟩
    | some taken =>
      obtain ⟨v, rest⟩ := taken
      obtain ⟨before, k, behind, rfl, hv, hk, rfl⟩ := takeKey_map_some htake
      have hrest : (before ++ behind).Nodup :=
        (List.nodup_cons.mp (List.nodup_middle.mp hnodup)).2
      obtain ⟨ms, hms⟩ := ih (before ++ behind) hrest
      have hshows := shows_pair hk v
      rw [← hv] at hshows
      exact ⟨(0, k) :: ms.map later, hms.take hnodup hshows⟩

theorem Matching.functions {es : List Entry} {ks : List (Fin n)} {ps : List Pair}
    {ms : List (ℕ × Fin n)} (h : Matching decode source found es ks ps ms) :
    ∃ (line : Fin ps.length → Fin es.length) (taken : Fin ps.length → Fin n),
      StrictMono line ∧ Function.Injective taken ∧
      (∀ i, Shows decode source (es.get (line i)) (found (taken i)) (ps.get i)) ∧
      ∀ j, j ∉ Set.range line → ∀ k ∈ ks,
        isKey decode (slice source (es.get j).key) (found k).1 = true →
        ∃ i, line i < j ∧ taken i = k := by
  have hlength : ps.length = ms.length := h.shows.length_eq
  have hat : ∀ (i : ℕ) (hi : i < ps.length), ∃ e, es[(ms[i]).1]? = some e ∧
      Shows decode source e (found (ms[i]).2) ps[i] :=
    fun i hi => h.shows.get hi (hlength ▸ hi)
  have hline : ∀ (i : ℕ) (hi : i < ps.length), (ms[i]).1 < es.length := by
    intro i hi
    obtain ⟨e, he, -⟩ := hat i hi
    exact (List.getElem?_eq_some_iff.mp he).1
  have hplace : ∀ m ∈ ms, ∃ i : Fin ps.length, ms[(i : ℕ)] = m := by
    intro m hm
    obtain ⟨i, hi, rfl⟩ := List.mem_iff_getElem.mp hm
    exact ⟨⟨i, hlength ▸ hi⟩, rfl⟩
  refine ⟨fun i => ⟨(ms[(i : ℕ)]).1, hline i i.isLt⟩, fun i => (ms[(i : ℕ)]).2, ?_, ?_, ?_, ?_⟩
  · intro i j hij
    exact List.pairwise_iff_getElem.mp h.inOrder i j (by omega) (by omega) hij
  · intro i j hij
    have hmap : ∀ k : Fin ps.length, (k : ℕ) < (ms.map Prod.snd).length := by
      intro k
      rw [List.length_map]
      omega
    have heq : (ms.map Prod.snd).get ⟨i, hmap i⟩ = (ms.map Prod.snd).get ⟨j, hmap j⟩ := by
      simpa only [List.get_eq_getElem, List.getElem_map] using hij
    have hplaces := List.nodup_iff_injective_get.mp h.nodup heq
    exact Fin.ext (Fin.mk.inj hplaces)
  · intro i
    obtain ⟨e, he, hshows⟩ := hat i i.isLt
    obtain ⟨_, rfl⟩ := List.getElem?_eq_some_iff.mp he
    exact hshows
  · intro j hfree k hk hkey
    have hj : es[(j : ℕ)]? = some es[j] := List.getElem?_eq_getElem j.isLt
    obtain ⟨m, hm, hlt, rfl⟩ := h.dropped j es[j] hj (by
      intro m hm heq
      obtain ⟨i, rfl⟩ := hplace m hm
      exact hfree ⟨i, Fin.ext heq⟩) k hk hkey
    obtain ⟨i, rfl⟩ := hplace m hm
    exact ⟨i, hlt, rfl⟩

/-- Every pair of a mapping has an entry of the mapping to itself: its written key
names the key of that entry, and its text is that of the value. A line that
opens an entry has no pair only if all entries with its key belong to pairs of
lines above it. -/
theorem pairs_inject_entries {v : Value} {found : List (Value × Value)}
    (h : decode (clean source) = .ok v) (hv : v.entries? = some found) :
    let es := entries source
    let ps := (readWith decode source).pairs
    ps.length ≤ found.length ∧
      ∃ (line : Fin ps.length → Fin es.length) (taken : Fin ps.length → Fin found.length),
        StrictMono line ∧ Function.Injective taken ∧
        (∀ i, (ps.get i).IsOf decode source (es.get (line i)) ∧
          Names decode (slice source (ps.get i).key.span) (found.get (taken i)).1 ∧
          ∀ item, (ps.get i).value = some item →
            item.text = valueText (slice source item.span) (found.get (taken i)).2) ∧
        ∀ j, j ∉ Set.range line → ∀ k,
          Names decode (slice source (es.get j).key) (found.get k).1 →
          ∃ i, line i < j ∧ taken i = k := by
  intro es ps
  have hpairs : ps = locate decode source es ((List.finRange found.length).map found.get) := by
    rw [List.map_get_finRange]
    exact pairs_readWith h hv
  obtain ⟨ms, hms⟩ := exists_matching decode source found.get es (List.finRange found.length)
    (List.nodup_finRange _)
  rw [← hpairs] at hms
  obtain ⟨line, taken, hline, htaken, hshows, hdropped⟩ := hms.functions
  have hle : ps.length ≤ found.length := by
    simpa using Fintype.card_le_of_injective taken htaken
  refine ⟨hle, line, taken, hline, htaken, ?_, ?_⟩
  · intro i
    have hkey := (hshows i).place.key
    refine ⟨(hshows i).place, ?_, (hshows i).value⟩
    rw [hkey]
    exact isKey_iff.mp (hshows i).key
  · intro j hfree k hnames
    exact hdropped j hfree k (List.mem_finRange k) (isKey_iff.mpr hnames)

/-- The second line belongs to the quoted scalar, and the key it seems to have is
taken before. -/
theorem pairs_inject_entries_folded :
    let source := "a: \x22x\na: y\x22\n'b': 3".toList
    let found : List (Value × Value) :=
      [(.string ['a'], .string "x a: y".toList), (.string ['b'], .number (.natural 3))]
    let ps := (readWith Yaml.decode source).pairs
    Yaml.decode (clean source) = .ok (.mapping found) ∧
      (Value.mapping found).entries? = some found ∧
      (entries source).map Entry.key = [⟨0, 1⟩, ⟨6, 7⟩, ⟨12, 15⟩] ∧
      ps.map Pair.key = [⟨['a'], ⟨0, 1⟩⟩, ⟨['b'], ⟨12, 15⟩⟩] ∧
      ∃ taken : Fin ps.length → Fin found.length, Function.Injective taken ∧
        ∀ i, Names Yaml.decode (slice source (ps.get i).key.span) (found.get (taken i)).1 := by
  intro source found ps
  have hdecode : Yaml.decode (clean source) = .ok (.mapping found) := by decide +kernel
  have hkeys : (entries source).map Entry.key = [⟨0, 1⟩, ⟨6, 7⟩, ⟨12, 15⟩] := by decide +kernel
  have hpairs : ps.map Pair.key = [⟨['a'], ⟨0, 1⟩⟩, ⟨['b'], ⟨12, 15⟩⟩] := by decide +kernel
  -- With the text forgotten, no pair is computed where the types below are compared.
  clear_value source
  obtain ⟨-, line, taken, -, htaken, hplaces, -⟩ :=
    pairs_inject_entries hdecode (rfl : (Value.mapping found).entries? = some found)
  refine ⟨hdecode, rfl, hkeys, hpairs, taken, htaken, ?_⟩
  intro i
  exact (hplaces i).2.1

end Outline

end SlideDirectives.Yaml
