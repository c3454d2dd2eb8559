import SlideDirectives.Proofs.Yaml.EntryCuts
import SlideDirectives.Proofs.Yaml.KeyLine
import SlideDirectives.Proofs.Yaml.PairOrder

/-!
# Where pairs are placed

An outline can be read with every cut of its source checked, whichever way the
decoder sends it, and is the same. Its pairs stand on lines of their own, each
with its key at the start, a colon behind it and its value behind the colon, and
end before the next one.
-/

set_option autoImplicit false

namespace SlideDirectives.Yaml

open Text

namespace Outline

def valueCut (source : List Char) (v : Value) : Option Span → Except Span (Option Item)
  | none => .ok none
  | some s => do
    let raw ← cut source s
    return some ⟨valueText raw v, s⟩

def locateCuts (decode : Decoder) (source : List Char) :
    List Entry → List (Value × Value) → Except Span (List Pair)
  | [], _ => .ok []
  | e::es, unused => do
    let raw ← cut source e.key
    match takeKey (isKey decode raw) unused with
    | none => locateCuts decode source es unused
    | some (v, rest) =>
      let value ← valueCut source v e.value
      let pairs ← locateCuts decode source es rest
      return ⟨⟨unquote decode raw, e.key⟩, value⟩ :: pairs

def locateEachCuts (decode : Decoder) (source : List Char) :
    List Entry → Except Span (Option (List Pair))
  | [] => .ok (some [])
  | e::es => do
    let chunk ← cut source ⟨e.key.start, e.stop⟩
    match decode (clean chunk) with
    | .error _ => return none
    | .ok (.mapping found) =>
      let pairs ← locateCuts decode source [e] found
      let later ← locateEachCuts decode source es
      return later.map (pairs ++ ·)
    | .ok _ => locateEachCuts decode source es

def ofValueCuts (decode : Decoder) (source : List Char) : Value → Except Span Outline
  | .mapping found => do
    let es ← Entry.scanCuts source 0 [] (lines source)
    let pairs ← locateCuts decode source es found
    return .mapping pairs
  | .tagged _ v => ofValueCuts decode source v
  | v => .ok (ofValue decode source v)

/-- The outline of a source, or a span that does not fit it. -/
def readCuts (decode : Decoder) (source : List Char) : Except Span Outline :=
  let text := clean source
  if (trim text).isEmpty then .ok (.scalar [])
  else match decode text with
    | .ok v => ofValueCuts decode source v
    | .error fault =>
      if fault.isTopDuplicate then do
        let es ← Entry.scanCuts source 0 [] (lines source)
        match ← locateEachCuts decode source es with
        | none => return .malformed
        | some [] => return .malformed
        | some pairs => return .mapping pairs
      else .ok .malformed

section Cuts

variable {decode : Decoder} {source : List Char}

theorem valueCut_eq {span : Option Span} (h : ∀ s, span = some s → s.Fits source) (v : Value) :
    valueCut source v span = .ok (span.map (fun s => ⟨valueText (slice source s) v, s⟩)) := by
  cases span with
  | none => rfl
  | some s =>
    rw [valueCut, cut_fits (h s rfl)]
    rfl

theorem locateCuts_eq {es : List Entry} (h : ∀ e ∈ es, e.Fits source)
    (unused : List (Value × Value)) :
    locateCuts decode source es unused = .ok (locate decode source es unused) := by
  induction es generalizing unused with
  | nil => rfl
  | cons e es ih =>
    rw [List.forall_mem_cons] at h
    rw [locateCuts, locate, cut_fits h.1.key]
    simp only [bind, Except.bind]
    cases takeKey (isKey decode (slice source e.key)) unused with
    | none => exact ih h.2 unused
    | some found =>
      simp only [valueCut_eq h.1.value, ih h.2]
      rfl

theorem locateEachCuts_eq {es : List Entry} (h : ∀ e ∈ es, e.Fits source)
    (hchunk : ∀ e ∈ es, Span.Fits ⟨e.key.start, e.stop⟩ source) :
    locateEachCuts decode source es = .ok (locateEach? decode source es) := by
  induction es with
  | nil => rfl
  | cons e es ih =>
    have halone : ∀ e' ∈ [e], e'.Fits source := by
      intro e' he'
      rw [List.mem_singleton.mp he']
      exact h e List.mem_cons_self
    rw [List.forall_mem_cons] at h hchunk
    rw [locateEachCuts, locateEach?, cut_fits hchunk.1]
    simp only [bind, Except.bind]
    cases decode (clean (slice source ⟨e.key.start, e.stop⟩)) with
    | error fault => rfl
    | ok v =>
      cases v with
      | mapping found =>
        simp only [locateCuts_eq halone, ih h.2 hchunk.2]
        rfl
      | _ => exact ih h.2 hchunk.2

theorem chunk_fits {e : Entry} (he : e ∈ entries source) :
    Span.Fits ⟨e.key.start, e.stop⟩ source := by
  obtain ⟨colon, limit, hanchored⟩ := Entry.entries_anchored source e he
  have hlies := (Entry.entries_ordered source).2 e he
  have hle : e.key.start ≤ e.stop := Nat.le_trans (Nat.le_of_lt hlies.key_lt) hlies.key_le
  exact Span.Fits.of_boundaries hle (Entry.entries_fit source e he).key.startBoundary
    hanchored.stop

theorem ofValueCuts_eq (v : Value) :
    ofValueCuts decode source v = .ok (ofValue decode source v) := by
  cases v with
  | tagged tag v =>
    rw [ofValueCuts, ofValue]
    exact ofValueCuts_eq v
  | mapping found =>
    rw [ofValueCuts, ofValue, Entry.scanCuts_lines]
    simp only [bind, Except.bind, locateCuts_eq (Entry.entries_fit source)]
    rfl
  | _ => rfl

/-- No cut fails, whatever the decoder says. -/
theorem readCuts_eq (decode : Decoder) (source : List Char) :
    readCuts decode source = .ok (readWith decode source) := by
  rw [readCuts, readWith]
  split
  · rfl
  · cases decode (clean source) with
    | ok v => exact ofValueCuts_eq v
    | error fault =>
      simp only
      split
      · rw [Entry.scanCuts_lines]
        simp only [bind, Except.bind,
          locateEachCuts_eq (Entry.entries_fit source) (fun _ => chunk_fits)]
        cases locateEach? decode source (entries source) with
        | none => rfl
        | some pairs => cases pairs <;> rfl
      · rfl

end Cuts

end Outline

/-- The key starts a line, a colon follows it there, and the value starts behind
the colon. -/
structure Pair.Placed (p : Pair) (source : List Char) : Prop where
  key : p.key.span.Fits source
  value : ∀ v, p.value = some v → v.span.Fits source
  line : ∃ colon, OpensLine source p.key.span colon ∧
    ∀ v, p.value = some v → colon < v.span.start

theorem Pair.IsOf.placed {p : Pair} {decode : Decoder} {source : List Char} {e : Entry}
    (h : p.IsOf decode source e) (he : e ∈ entries source) : p.Placed source := by
  have hfits := Entry.entries_fit source e he
  obtain ⟨colon, limit, hanchored⟩ := Entry.entries_anchored source e he
  have hkey : p.key.span = e.key := congrArg Item.span h.key
  have hvalue : ∀ v, p.value = some v → e.value = some v.span := by
    intro v hv
    rw [← h.value, hv]
    rfl
  refine ⟨hkey ▸ hfits.key, fun v hv => hfits.value v.span (hvalue v hv), colon,
    hkey ▸ hanchored.line, fun v hv => hanchored.value v.span (hvalue v hv)⟩

theorem Pair.Lies.start_lt_stop {p : Pair} {size : Nat} (h : p.Lies size) :
    p.key.span.start < p.stop := by
  have hkey := h.key_lt
  rw [Pair.stop]
  cases hvalue : p.value with
  | none => exact hkey
  | some v =>
    have hapart := h.apart v hvalue
    have hspan := (h.value_le v hvalue).1
    change p.key.span.start < v.span.stop
    omega

/-- Reading cuts the source at boundaries only, and the pairs it gives are placed
on their lines, in the order of the source and apart from each other. -/
theorem pairs_placed (decode : Decoder) (source : List Char) :
    Outline.readCuts decode source = .ok (Outline.readWith decode source) ∧
      (∀ p ∈ (Outline.readWith decode source).pairs, p.Placed source) ∧
      (Outline.readWith decode source).pairs.Pairwise
        (fun p q => p.key.span.start < q.key.span.start ∧ p.stop < q.key.span.start) := by
  refine ⟨Outline.readCuts_eq decode source, ?_, ?_⟩
  · intro p hp
    obtain ⟨e, he, hof⟩ := Outline.mem_pairs_readWith hp
    exact hof.placed he
  · refine (Outline.pairs_spaced decode source).imp_of_mem ?_
    intro p q hp _ hpq
    exact ⟨Nat.lt_trans (Outline.pairs_lie hp).start_lt_stop hpq, hpq⟩

end SlideDirectives.Yaml
