import SlideDirectives.Proofs.Yaml.EntryPlace
import SlideDirectives.Yaml.Outline

/-!
# Pairs come from entries

Every pair of an outline is made of one entry of the scan: it has the spans of
that entry, and its key is the written key or what quotes around it decode to.
-/

set_option autoImplicit false

namespace SlideDirectives.Yaml

open Text

/-- The pair has the spans of the entry and the spelling of its key. -/
structure Pair.IsOf (p : Pair) (decode : Decoder) (source : List Char) (e : Entry) : Prop where
  key : p.key = ⟨Outline.unquote decode (slice source e.key), e.key⟩
  value : p.value.map Item.span = e.value

namespace Outline

variable {decode : Decoder} {source : List Char}

theorem mem_locate {es : List Entry} {unused : List (Value × Value)} {p : Pair}
    (h : p ∈ locate decode source es unused) : ∃ e ∈ es, p.IsOf decode source e := by
  induction es generalizing unused with
  | nil => simp [locate] at h
  | cons e es ih =>
    simp only [locate] at h
    split at h
    · obtain ⟨e', he', hp⟩ := ih h
      exact ⟨e', by simp [he'], hp⟩
    · rcases List.mem_cons.mp h with rfl | h
      · refine ⟨e, by simp, rfl, ?_⟩
        cases e.value <;> rfl
      · obtain ⟨e', he', hp⟩ := ih h
        exact ⟨e', by simp [he'], hp⟩

theorem mem_locateEach? {es : List Entry} {ps : List Pair}
    (h : locateEach? decode source es = some ps) {p : Pair} (hp : p ∈ ps) :
    ∃ e ∈ es, p.IsOf decode source e := by
  induction es generalizing ps with
  | nil =>
    cases h
    cases hp
  | cons e es ih =>
    simp only [locateEach?] at h
    split at h
    · cases h
    · obtain ⟨ps', hps, rfl⟩ := Option.map_eq_some_iff.mp h
      rcases List.mem_append.mp hp with hp | hp
      · obtain ⟨e', he', hof⟩ := mem_locate hp
        exact ⟨e', by simpa using Or.inl (by simpa using he'), hof⟩
      · obtain ⟨e', he', hof⟩ := ih hps hp
        exact ⟨e', by simp [he'], hof⟩
    · obtain ⟨e', he', hof⟩ := ih h hp
      exact ⟨e', by simp [he'], hof⟩

theorem mem_pairs_ofValue {v : Value} {p : Pair} (h : p ∈ (ofValue decode source v).pairs) :
    ∃ e ∈ entries source, p.IsOf decode source e := by
  cases v with
  | tagged tag v =>
    rw [ofValue] at h
    exact mem_pairs_ofValue h
  | mapping found =>
    rw [ofValue] at h
    exact mem_locate h
  | _ =>
    rw [ofValue] at h
    cases h

/-- Every pair that is read comes from an entry of the scan. -/
theorem mem_pairs_readWith {p : Pair} (h : p ∈ (readWith decode source).pairs) :
    ∃ e ∈ entries source, p.IsOf decode source e := by
  simp only [readWith] at h
  split at h
  · cases h
  · split at h
    · exact mem_pairs_ofValue h
    · split at h
      · split at h
        · cases h
        · cases h
        · rename_i ps _ hps
          exact mem_locateEach? hps h
      · cases h

theorem unquote_cases (decode : Decoder) (raw : List Char) :
    (raw.head?.any Entry.isQuote = true ∧ decode raw = .ok (.string (unquote decode raw))) ∨
      (unquote decode raw = raw ∧
        (raw.head?.any Entry.isQuote = true → ∀ text, decode raw ≠ .ok (.string text))) := by
  unfold unquote
  split
  · rename_i hquote
    split
    · rename_i text hdecode
      exact Or.inl ⟨hquote, hdecode⟩
    · rename_i hother
      exact Or.inr ⟨rfl, fun _ text => hother text⟩
  · rename_i hquote
    exact Or.inr ⟨rfl, fun h => absurd h hquote⟩

end Outline

end SlideDirectives.Yaml
