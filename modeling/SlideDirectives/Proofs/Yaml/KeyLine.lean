import SlideDirectives.Proofs.Text.Overwrite
import SlideDirectives.Proofs.Yaml.EntryScan

/-!
# Entries on the lines of their keys

The key of an entry starts a line of the source, and a colon follows it there.
Whatever lines come after, the value starts behind that colon, and the entry
ends at a boundary.
-/

set_option autoImplicit false

namespace SlideDirectives.Yaml

open Text

/-- A whole line with a key, white space and a colon, between what stands before
it and what stands after. -/
structure KeyLine (before key blanks rest after : List Char) : Prop where
  newline : '\n' ∉ key ++ (blanks ++ ':' :: rest)
  starts : before = [] ∨ before.getLast? = some '\n'
  ends : after = [] ∨ after.head? = some '\n'
  ne_nil : key ≠ []
  first : ∀ c ∈ key.head?, isGap c = false
  last : ∀ c ∈ key.getLast?, isGap c = false
  blank : ∀ c ∈ blanks, isBlank c = true

/-- At the span a key starts its line, and the colon behind it is at byte `colon`. -/
def OpensLine (source : List Char) (span : Span) (colon : Nat) : Prop :=
  ∃ before key blanks rest after, KeyLine before key blanks rest after ∧
    source = before ++ (key ++ (blanks ++ ':' :: rest)) ++ after ∧
    span = ⟨byteSize before, byteSize before + byteSize key⟩ ∧
    colon = byteSize before + byteSize key + byteSize blanks

namespace Entry

/-- What a line opens, and that no line behind it changes. -/
structure Anchored (e : Entry) (source : List Char) (colon limit : Nat) : Prop where
  line : OpensLine source e.key colon
  colon_lt : colon < limit
  value : ∀ v, e.value = some v → colon < v.start
  stop : isBoundary source e.stop = true

section Line

theorem isBlank_of_isGap {c : Char} (h : isGap c = true) : isBlank c = true := by
  rw [isGap, Bool.or_eq_true, beq_iff_eq, beq_iff_eq] at h
  rcases h with rfl | rfl
  · decide
  · decide

theorem isBlank_getLast?_trimEnd {cs : List Char} {c : Char} (h : c ∈ (trimEnd cs).getLast?) :
    isBlank c = false := by
  rw [trimEnd, dropEndWhile, List.getLast?_reverse] at h
  have hnot := List.head?_dropWhile_not isBlank cs.reverse
  rw [Option.mem_def.mp h] at hnot
  simpa using hnot

theorem ofLine?_keyed {line : List Char} {e : Entry} (h : ofLine? line = some e)
    (hgap : line.head?.any isGap = false) :
    ∃ key blanks rest, line = key ++ (blanks ++ ':' :: rest) ∧ key ≠ [] ∧
      (∀ c ∈ key.head?, isGap c = false) ∧ (∀ c ∈ key.getLast?, isGap c = false) ∧
      (∀ c ∈ blanks, isBlank c = true) ∧ e.key = ⟨0, byteSize key⟩ ∧
      ∀ v, e.value = some v → byteSize key + byteSize blanks < v.start := by
  obtain ⟨written, gap, valueGap, rest, hparts, -, hall, -, hne, rfl⟩ := ofLine?_parts h
  obtain ⟨blanks, hblanks, hwritten⟩ := trimEnd_append_blanks written
  refine ⟨trimEnd written, blanks ++ gap, valueGap ++ rest, ?_, hne, ?_, ?_, ?_, rfl, ?_⟩
  · rw [hparts]
    conv => lhs; rw [← hwritten]
    simp
  · intro c hc
    obtain ⟨tail, htail⟩ := trimEnd_isPrefix written
    obtain ⟨key, hkey⟩ := List.head?_eq_some_iff.mp hc
    have hline : line.head? = some c := by
      rw [hparts, ← htail, hkey]
      rfl
    rw [hline] at hgap
    exact hgap
  · intro c hc
    have hblank := isBlank_getLast?_trimEnd hc
    cases hgap' : isGap c with
    | false => rfl
    | true => rw [isBlank_of_isGap hgap'] at hblank; cases hblank
  · intro c hc
    rcases List.mem_append.mp hc with hc | hc
    · exact hblanks c hc
    · exact isBlank_of_isGap (List.all_eq_true.mp hall c hc)
  · intro v hv
    obtain ⟨value, -, rfl⟩ := Option.map_eq_some_iff.mp hv
    have hsize := congrArg byteSize hwritten
    simp only [byteSize_append] at hsize ⊢
    omega

theorem ofLine?_stop {line : List Char} {e : Entry} (h : ofLine? line = some e) :
    e.stop = byteSize (trimEnd line) := by
  obtain ⟨written, gap, valueGap, rest, -, -, -, -, -, rfl⟩ := ofLine?_parts h
  rfl

theorem role_opens_gap {line : List Char} {m : Marked} (h : Role.ofLine line = .opens m) :
    line.head?.any isGap = false := by
  unfold Role.ofLine at h
  split at h
  · cases h
  · split at h
    · cases h
    · rename_i hgap
      exact eq_false_of_ne_true hgap

end Line

section Scan

variable {source before : List Char}

theorem Anchored.mono {e : Entry} {colon m n : Nat} (h : e.Anchored source colon m)
    (hmn : m ≤ n) : e.Anchored source colon n :=
  ⟨h.line, Nat.lt_of_lt_of_le h.colon_lt hmn, h.value, h.stop⟩

theorem exists_behind {l : Line} {ls : List Line} (hl : l.Before ls) :
    ∃ after, l.chars ++ ls.flatMap Line.chars = l.content ++ after ∧
      (after = [] ∨ after.head? = some '\n') := by
  cases hended : l.ended with
  | true => exact ⟨'\n' :: ls.flatMap Line.chars, by simp [Line.chars, hended], Or.inr rfl⟩
  | false =>
    rcases hl.ended with h | ⟨rfl, -⟩
    · rw [hended] at h
      cases h
    · exact ⟨[], by simp [Line.chars, hended], Or.inl rfl⟩

theorem anchored_shift {l : Line} {ls : List Line} {m : Marked}
    (hs : source = before ++ (l.chars ++ ls.flatMap Line.chars)) (hl : l.Before ls)
    (hbefore : before = [] ∨ before.getLast? = some '\n')
    (hrole : Role.ofLine (scanned l) = .opens m) :
    ∃ colon, (m.entry.shift (byteSize before)).Anchored source colon
      (byteSize before + l.size) := by
  obtain ⟨hline, -⟩ := role_opens hrole
  obtain ⟨key, blanks, rest, hscanned, hne, hfirst, hlast, hblank, hkey, hvalue⟩ :=
    ofLine?_keyed hline (role_opens_gap hrole)
  obtain ⟨returns, hreturns⟩ : scanned l <+: l.content := dropEndWhile_isPrefix l.content
  obtain ⟨after, hafter, hends⟩ := exists_behind hl
  have hcontent : l.content = key ++ (blanks ++ ':' :: (rest ++ returns)) := by
    rw [← hreturns, hscanned]
    simp
  have hsize : byteSize key + byteSize blanks < l.size := by
    have hcolon : (':' : Char).utf8Size = 1 := rfl
    rw [Line.size, hcontent]
    simp only [byteSize_append, byteSize, hcolon]
    omega
  have hnewline := hl.newline
  rw [hcontent] at hnewline
  refine ⟨byteSize before + byteSize key + byteSize blanks,
    ⟨before, key, blanks, rest ++ returns, after,
      ⟨hnewline, hbefore, hends, hne, hfirst, hlast, hblank⟩, ?_, ?_, rfl⟩, by omega, ?_, ?_⟩
  · rw [hs, hafter, hcontent]
    exact (List.append_assoc _ _ _).symm
  · change m.entry.key.shift _ = _
    rw [hkey, Span.shift, Nat.zero_add, Nat.add_comm]
  · intro v hv
    obtain ⟨w, hw, rfl⟩ := Option.map_eq_some_iff.mp hv
    have hstart := hvalue w hw
    rw [Span.shift_start]
    omega
  · change isBoundary source (m.entry.stop + _) = true
    rw [ofLine?_stop hline, Nat.add_comm, hs, hafter, ← hreturns, List.append_assoc]
    exact isBoundary_append (isBoundary_append_left
      (isBoundary_of_isPrefix (trimEnd_isPrefix (scanned l))))

theorem Anchored.extend {e : Entry} {colon : Nat} {line after : List Char}
    (h : e.Anchored source colon (byteSize before)) (hs : source = before ++ (line ++ after)) :
    (extend source line (byteSize before) e).Anchored source colon (byteSize before) := by
  simp only [Entry.extend]
  split
  · refine ⟨h.line, h.colon_lt, ?_, ?_⟩
    · intro v hv
      obtain rfl := Option.some.inj hv
      cases hvalue : e.value with
      | some w => exact h.value w hvalue
      | none => exact Nat.lt_of_lt_of_le h.colon_lt (Nat.le_add_right _ _)
    · rw [hs]
      exact isBoundary_append (isBoundary_append_left
        (isBoundary_of_isPrefix (trimEnd_isPrefix line)))
  · exact h

theorem advance_anchored {found : List Entry} {l : Line} {ls : List Line}
    (hs : source = before ++ (l.chars ++ ls.flatMap Line.chars)) (hl : l.Before ls)
    (hbefore : before = [] ∨ before.getLast? = some '\n')
    (hf : ∀ e ∈ found, ∃ colon, e.Anchored source colon (byteSize before)) :
    ∀ e ∈ advance source (byteSize before) found l,
      ∃ colon, e.Anchored source colon (byteSize before + l.size) := by
  have hlater : ∀ e ∈ found, ∃ colon, e.Anchored source colon (byteSize before + l.size) := by
    intro e he
    obtain ⟨colon, h⟩ := hf e he
    exact ⟨colon, h.mono (Nat.le_add_right _ _)⟩
  rw [advance_role]
  cases hrole : Role.ofLine (scanned l) with
  | idle => exact hlater
  | opens m =>
    intro e he
    rcases List.mem_cons.mp he with rfl | he
    · exact anchored_shift hs hl hbefore hrole
    · exact hlater e he
  | continues =>
    cases found with
    | nil => exact hlater
    | cons e es =>
      obtain ⟨colon, h⟩ := hf e List.mem_cons_self
      obtain ⟨ending, hending⟩ := scanned_isPrefix l
      rw [← hending, List.append_assoc] at hs
      intro e' he'
      rcases List.mem_cons.mp he' with rfl | he'
      · exact ⟨colon, (h.extend hs).mono (Nat.le_add_right _ _)⟩
      · exact hlater e' (List.mem_cons_of_mem e he')

theorem scanGo_anchored {found : List Entry} {ls : List Line}
    (hs : source = before ++ ls.flatMap Line.chars) (hcut : IsCut ls)
    (hbefore : before = [] ∨ before.getLast? = some '\n')
    (hf : ∀ e ∈ found, ∃ colon, e.Anchored source colon (byteSize before)) :
    ∀ e ∈ scanGo source (byteSize before) found ls, ∃ colon limit,
      e.Anchored source colon limit := by
  induction ls generalizing before found with
  | nil =>
    intro e he
    obtain ⟨colon, h⟩ := hf e (List.mem_reverse.mp he)
    exact ⟨colon, _, h⟩
  | cons l ls ih =>
    obtain ⟨hl, hcut⟩ := hcut
    have hkept := advance_anchored (List.flatMap_cons ▸ hs) hl hbefore hf
    rw [scanGo_cons]
    rcases hl.ended with hended | ⟨rfl, -⟩
    -- The newline lets the line behind it start as a line.
    · have hnext : byteSize before + l.size = byteSize (before ++ l.chars) := by
        rw [byteSize_append, l.byteSize_chars]
      have hlast : (before ++ l.chars).getLast? = some '\n' := by simp [Line.chars, hended]
      rw [hnext] at hkept ⊢
      exact ih (by rw [hs]; simp) hcut (Or.inr hlast) hkept
    · intro e he
      obtain ⟨colon, h⟩ := hkept e (List.mem_reverse.mp he)
      exact ⟨colon, _, h⟩

/-- Each entry of a source has its key on a line, and a colon before its value. -/
theorem entries_anchored (source : List Char) :
    ∀ e ∈ entries source, ∃ colon limit, e.Anchored source colon limit := by
  have hsource : source = [] ++ (lines source).flatMap Line.chars :=
    (flatMap_chars_lines source).symm
  exact scanGo_anchored hsource (isCut_lines source) (Or.inl rfl) (by simp)

end Scan

end Entry

end SlideDirectives.Yaml
