import SlideDirectives.Proofs.Yaml.EntryScan
import SlideDirectives.Proofs.Yaml.PairPlace

/-!
# Entries read by themselves

Where a key is repeated, each entry is decoded alone and the pairs are put
together. Those of one entry are told by the span of its key, so the outcome
says what each entry gave.
-/

set_option autoImplicit false

namespace SlideDirectives.Yaml.Outline

open Text

variable {decode : Decoder} {source : List Char}

def alone? (decode : Decoder) (source : List Char) (e : Entry) : Option (List Pair) :=
  match decode (clean (slice source ⟨e.key.start, e.stop⟩)) with
  | .error _ => none
  | .ok (.mapping found) => some (locate decode source [e] found)
  | .ok _ => some []

def under (key : Span) (ps : List Pair) : List Pair :=
  ps.filter (fun p => p.key.span == key)

theorem under_append (key : Span) (ps qs : List Pair) :
    under key (ps ++ qs) = under key ps ++ under key qs :=
  List.filter_append ps qs

theorem under_cons (key : Span) (p : Pair) (ps : List Pair) :
    under key (p::ps) = if p.key.span = key then p :: under key ps else under key ps := by
  rw [under, List.filter_cons]
  simp only [beq_iff_eq]
  rfl

theorem under_eq_self {key : Span} {ps : List Pair} (h : ∀ p ∈ ps, p.key.span = key) :
    under key ps = ps := by
  rw [under, List.filter_eq_self]
  exact fun p hp => beq_iff_eq.mpr (h p hp)

theorem under_eq_nil {key : Span} {ps : List Pair} (h : ∀ p ∈ ps, p.key.span ≠ key) :
    under key ps = [] := by
  rw [under, List.filter_eq_nil_iff]
  exact fun p hp => by simpa using h p hp

theorem locateEach?_cons (e : Entry) (es : List Entry) :
    locateEach? decode source (e::es) = (alone? decode source e).bind fun part =>
      (locateEach? decode source es).map (part ++ ·) := by
  rw [locateEach?, alone?]
  cases decode (clean (slice source ⟨e.key.start, e.stop⟩)) with
  | error fault => rfl
  | ok v =>
    cases v with
    | mapping found => rfl
    | _ => cases locateEach? decode source es <;> rfl

theorem locateEach?_eq_some {es : List Entry} {ps : List Pair} :
    locateEach? decode source es = some ps ↔ (∀ e ∈ es, alone? decode source e ≠ none) ∧
      es.flatMap (fun e => (alone? decode source e).getD []) = ps := by
  induction es generalizing ps with
  | nil => simp [locateEach?]
  | cons e es ih =>
    rw [locateEach?_cons, List.forall_mem_cons, List.flatMap_cons]
    cases alone? decode source e with
    | none => simp
    | some part =>
      rw [Option.bind_some, Option.map_eq_some_iff]
      constructor
      · rintro ⟨later, hlater, rfl⟩
        obtain ⟨hall, rfl⟩ := ih.mp hlater
        exact ⟨⟨Option.some_ne_none part, hall⟩, rfl⟩
      · rintro ⟨⟨-, hall⟩, rfl⟩
        exact ⟨_, ih.mpr ⟨hall, rfl⟩, rfl⟩

theorem locateEach?_eq_none {es : List Entry} :
    locateEach? decode source es = none ↔ ∃ e ∈ es, alone? decode source e = none := by
  rw [Option.eq_none_iff_forall_ne_some]
  constructor
  · intro h
    by_cases hall : ∀ e ∈ es, alone? decode source e ≠ none
    · exact absurd (locateEach?_eq_some.mpr ⟨hall, rfl⟩) (h _)
    · simpa using hall
  · rintro ⟨e, he, hnone⟩ ps hps
    exact (locateEach?_eq_some.mp hps).1 e he hnone

theorem span_of_mem_alone? {e : Entry} {ps : List Pair} (h : alone? decode source e = some ps) :
    ∀ p ∈ ps, p.key.span = e.key := by
  intro p hp
  rw [alone?] at h
  split at h
  · cases h
  · obtain rfl := Option.some.inj h
    obtain ⟨e', he', hof⟩ := mem_locate hp
    rw [List.mem_singleton.mp he'] at hof
    rw [hof.key]
  · obtain rfl := Option.some.inj h
    cases hp

section Parts

variable {es : List Entry}

/-- Parts that are put together are found again under the keys of their entries. -/
theorem under_flatMap {parts : Entry → List Pair} (hnodup : (es.map Entry.key).Nodup)
    (hparts : ∀ e ∈ es, ∀ p ∈ parts e, p.key.span = e.key) {e : Entry} (he : e ∈ es) :
    under e.key (es.flatMap parts) = parts e := by
  induction es with
  | nil => cases he
  | cons d es ih =>
    obtain ⟨hd, hnodup⟩ := List.nodup_cons.mp hnodup
    rw [List.flatMap_cons, under_append]
    rcases List.mem_cons.mp he with rfl | hmem
    · have hlater : under e.key (es.flatMap parts) = [] := by
        apply under_eq_nil
        intro p hp heq
        obtain ⟨e', he', hp⟩ := List.mem_flatMap.mp hp
        rw [hparts e' (List.mem_cons_of_mem _ he') p hp] at heq
        exact hd (heq ▸ List.mem_map_of_mem he')
      rw [under_eq_self (hparts e List.mem_cons_self), hlater, List.append_nil]
    · have hhead : under e.key (parts d) = [] := by
        apply under_eq_nil
        intro p hp heq
        rw [hparts d List.mem_cons_self p hp] at heq
        exact hd (heq ▸ List.mem_map_of_mem hmem)
      rw [hhead, ih hnodup (fun e' he' => hparts e' (List.mem_cons_of_mem _ he')) hmem,
        List.nil_append]

theorem flatMap_under {ps : List Pair} (hnodup : (es.map Entry.key).Nodup)
    (hps : (ps.map (·.key.span)).Sublist (es.map Entry.key)) :
    es.flatMap (fun e => under e.key ps) = ps := by
  induction es generalizing ps with
  | nil =>
    have hnil := List.sublist_nil.mp hps
    rw [List.map_eq_nil_iff.mp hnil]
    rfl
  | cons e es ih =>
    obtain ⟨he, hnodup⟩ := List.nodup_cons.mp hnodup
    rw [List.flatMap_cons]
    have hother : ∀ e' ∈ es, e.key ≠ e'.key := by
      intro e' he' heq
      exact he (heq ▸ List.mem_map_of_mem he')
    rcases List.sublist_cons_iff.mp hps with hskip | ⟨spans, hspans, hlater⟩
    · have hnone : under e.key ps = [] := by
        apply under_eq_nil
        intro p hp heq
        exact he (heq ▸ hskip.subset (List.mem_map_of_mem hp))
      rw [hnone, ih hnodup hskip, List.nil_append]
    · obtain ⟨p, later, rfl, hp, rfl⟩ := List.map_eq_cons_iff.mp hspans
      have hhead : under e.key (p::later) = [p] := by
        have hnone : under e.key later = [] := by
          apply under_eq_nil
          intro q hq heq
          exact he (heq ▸ hlater.subset (List.mem_map_of_mem hq))
        rw [under_cons, if_pos hp, hnone]
      have htail : es.flatMap (fun e' => under e'.key (p::later)) =
          es.flatMap (fun e' => under e'.key later) := by
        rw [List.flatMap_def, List.flatMap_def]
        congr 1
        apply List.map_congr_left
        intro e' he'
        rw [under_cons, hp, if_neg (hother e' he')]
      rw [hhead, htail, ih hnodup hlater]
      rfl

end Parts

end SlideDirectives.Yaml.Outline
