import SlideDirectives.Proofs.Text.Trim
import SlideDirectives.Yaml.Entry

/-!
# The spans of entries fit the source

Every reader of an entry line returns a prefix of what it reads, so the spans
on a line add up to boundaries. The scan keeps that all entries found so far
fit the source and that no value starts behind the line being read.
-/

set_option autoImplicit false

namespace SlideDirectives.Yaml.Entry

open Text

theorem closeGo_isPrefix {q : Char} {cs r : List Char} (h : closeGo q cs = some r) : r <+: cs := by
  fun_induction closeGo q cs generalizing r with
  | case1 => cases h
  | case2 => cases h; exact List.prefix_refl _
  | case3 => cases h
  | case4 c d cs hc ih =>
    obtain ⟨r', hr, rfl⟩ := Option.map_eq_some_iff.mp h
    simpa using ih hr
  | case5 d cs hq => cases h; simp
  | case6 c d cs hc hq ih =>
    obtain ⟨r', hr, rfl⟩ := Option.map_eq_some_iff.mp h
    simpa using ih hr

theorem quoted?_isPrefix {cs r : List Char} (h : quoted? cs = some r) : r <+: cs := by
  cases cs with
  | nil => cases h
  | cons q cs =>
    obtain ⟨r', hr, rfl⟩ := Option.map_eq_some_iff.mp h
    simpa using closeGo_isPrefix hr

theorem plainKey?_isPrefix {cs r : List Char} (h : plainKey? cs = some r) : r <+: cs := by
  induction cs generalizing r with
  | nil => cases h
  | cons c cs ih =>
    rw [plainKey?] at h
    split at h
    · cases h
      exact List.nil_prefix
    · obtain ⟨r', hr, rfl⟩ := Option.map_eq_some_iff.mp h
      simpa using ih hr

theorem writtenKey?_isPrefix {line r : List Char} (h : writtenKey? line = some r) : r <+: line := by
  cases line with
  | nil => cases h
  | cons c cs =>
    simp only [writtenKey?] at h
    split at h
    · exact quoted?_isPrefix h
    · split at h
      · cases h
      · exact plainKey?_isPrefix h

theorem beforeComment_isPrefix (afterGap : Bool) (cs : List Char) :
    beforeComment afterGap cs <+: cs := by
  induction cs generalizing afterGap with
  | nil => exact List.prefix_refl _
  | cons c cs ih =>
    rw [beforeComment]
    split
    · exact List.nil_prefix
    · simpa using ih (isGap c)

theorem inlineValue?_isPrefix {cs v : List Char} (h : inlineValue? cs = some v) : v <+: cs := by
  cases cs with
  | nil => cases h
  | cons c cs =>
    simp only [inlineValue?] at h
    split at h
    · cases h
    · split at h
      · cases h
        cases hq : quoted? (c::cs) with
        | none => exact List.prefix_refl _
        | some r => exact quoted?_isPrefix hq
      · cases h
        exact (trimEnd_isPrefix _).trans (beforeComment_isPrefix _ _)

theorem ofLine?_parts {line : List Char} {e : Entry} (h : ofLine? line = some e) :
    ∃ written gap valueGap rest, line = written ++ gap ++ ':' :: (valueGap ++ rest) ∧
      writtenKey? line = some written ∧ gap.all isGap = true ∧ valueGap.all isGap = true ∧
      trimEnd written ≠ [] ∧
      e = ⟨⟨0, byteSize (trimEnd written)⟩,
        (inlineValue? rest).map (fun v =>
          ⟨byteSize written + byteSize gap + 1 + byteSize valueGap,
            byteSize written + byteSize gap + 1 + byteSize valueGap + byteSize v⟩),
        byteSize (trimEnd line)⟩ := by
  simp only [ofLine?, bind, Option.bind_eq_some_iff] at h
  obtain ⟨written, hw, h⟩ := h
  obtain ⟨after, hline⟩ := writtenKey?_isPrefix hw
  have hafter : line.drop written.length = after := by rw [← hline, List.drop_left]
  rw [hafter] at h
  have hgap := takeWhile_append_drop (p := isGap) after
  split at h
  · rename_i rest hrest
    split at h
    · cases h
    · rename_i hkey
      refine ⟨written, after.takeWhile isGap, rest.takeWhile isGap,
        rest.drop (rest.takeWhile isGap).length, ?_, hw, ?_, ?_, ?_, ?_⟩
      · rw [takeWhile_append_drop, ← hrest, List.append_assoc, hgap, hline]
      · exact List.all_takeWhile
      · exact List.all_takeWhile
      · simpa using hkey
      · exact (Option.some.inj h).symm
  · cases h

/-- The spans of an entry cut no character of the source. -/
structure Fits (e : Entry) (source : List Char) : Prop where
  key : e.key.Fits source
  value : ∀ v, e.value = some v → v.Fits source

def StartsBy (e : Entry) (limit : Nat) : Prop :=
  ∀ v, e.value = some v → v.start ≤ limit

theorem ofLine?_fits {line : List Char} {e : Entry} (h : ofLine? line = some e) : e.Fits line := by
  obtain ⟨written, gap, valueGap, rest, hline, hw, -, -, -, rfl⟩ := ofLine?_parts h
  constructor
  · apply Span.Fits.of_boundaries (Nat.zero_le _) (isBoundary_zero line)
    exact isBoundary_of_isPrefix ((trimEnd_isPrefix _).trans (writtenKey?_isPrefix hw))
  · intro v hv
    obtain ⟨value, hvalue, rfl⟩ := Option.map_eq_some_iff.mp hv
    obtain ⟨after, hrest⟩ := inlineValue?_isPrefix hvalue
    have hholds : Holds line ⟨byteSize (written ++ gap ++ ':' :: valueGap),
        byteSize (written ++ gap ++ ':' :: valueGap) + byteSize value⟩ value :=
      ⟨written ++ gap ++ ':' :: valueGap, after, by rw [hline, ← hrest]; simp, rfl⟩
    have hsize : byteSize (written ++ gap ++ ':' :: valueGap) =
        byteSize written + byteSize gap + 1 + byteSize valueGap := by
      have hcolon : (':' : Char).utf8Size = 1 := rfl
      simp only [byteSize_append, byteSize, hcolon]
      omega
    rw [hsize] at hholds
    exact hholds.fits

theorem Fits.shift {line : List Char} {e : Entry} (h : e.Fits line) (before : List Char) :
    (e.shift (byteSize before)).Fits (before ++ line) := by
  constructor
  · exact h.key.behind before
  · intro v hv
    obtain ⟨w, hw, rfl⟩ := Option.map_eq_some_iff.mp hv
    exact (h.value w hw).behind before

theorem Fits.append {source : List Char} {e : Entry} (h : e.Fits source) (after : List Char) :
    e.Fits (source ++ after) := by
  constructor
  · exact (h.key.holds.append_right after).fits
  · intro v hv
    exact ((h.value v hv).holds.append_right after).fits

theorem Fits.extend {source before line after : List Char} {e : Entry}
    (hs : source = before ++ (line ++ after)) (h : e.Fits source)
    (hb : e.StartsBy (byteSize before)) (hline : trim line ≠ []) :
    (extend source line (byteSize before) e).Fits source := by
  have hstop : isBoundary source (byteSize before + byteSize (trimEnd line)) = true := by
    rw [hs]
    exact isBoundary_append (isBoundary_append_left (isBoundary_of_isPrefix (trimEnd_isPrefix line)))
  simp only [Entry.extend]
  split
  · refine ⟨h.key, ?_⟩
    intro v hv
    cases hv
    cases hv : e.value with
    | some w =>
      have hw := hb w hv
      refine Span.Fits.of_boundaries ?_ (h.value w hv).startBoundary hstop
      simp only [Option.map_some, Option.getD_some]
      omega
    | none =>
      simp only [Option.map_none, Option.getD_none, byteSize_sub_trimStart]
      refine Span.Fits.of_boundaries ?_ ?_ hstop
      · simp only [trimEnd_eq hline, byteSize_append]
        omega
      · rw [hs]
        exact isBoundary_append (isBoundary_append_left
          (isBoundary_of_isPrefix (List.takeWhile_prefix isBlank)))
  · exact h

theorem extend_startsBy {source line : List Char} {start limit : Nat} {e : Entry}
    (hb : e.StartsBy start) (hl : start + byteSize line ≤ limit) :
    (extend source line start e).StartsBy limit := by
  simp only [Entry.extend]
  split
  · intro v hv
    cases hv
    cases hv : e.value with
    | some w =>
      have hw := hb w hv
      simp only [Option.map_some, Option.getD_some]
      omega
    | none =>
      simp only [Option.map_none, Option.getD_none]
      omega
  · intro v hv
    have := hb v hv
    omega

def advance (source : List Char) (start : Nat) (found : List Entry) (l : Line) : List Entry :=
  let line := dropEndWhile (· == '\r') l.content
  if (trim line).isEmpty then found
  else if line.head?.any isGap then
    match found with
    | [] => []
    | e::es => extend source line start e :: es
  else if isStructural line then found
  else match ofLine? line with
    | none => found
    | some e => e.shift start :: found

theorem scanGo_cons (source : List Char) (start : Nat) (found : List Entry) (l : Line)
    (ls : List Line) : scanGo source start found (l::ls) =
      scanGo source (start + l.size) (advance source start found l) ls := rfl

/-- What the scan keeps from line to line. -/
def Kept (source : List Char) (limit : Nat) (found : List Entry) : Prop :=
  ∀ e ∈ found, e.Fits source ∧ e.StartsBy limit

theorem Kept.mono {source : List Char} {m n : Nat} {found : List Entry} (h : Kept source m found)
    (hmn : m ≤ n) : Kept source n found := by
  intro e he
  exact ⟨(h e he).1, fun v hv => Nat.le_trans ((h e he).2 v hv) hmn⟩

theorem advance_kept {source before after : List Char} {found : List Entry} (l : Line)
    (hs : source = before ++ (l.chars ++ after)) (hf : Kept source (byteSize before) found) :
    Kept source (byteSize before + l.size) (advance source (byteSize before) found l) := by
  obtain ⟨ending, hl⟩ := (dropEndWhile_isPrefix l.content).trans l.content_isPrefix
  have hsize := l.byteSize_chars
  rw [← hl, byteSize_append] at hsize
  rw [← hl, List.append_assoc] at hs
  have hlater := hf.mono (Nat.le_add_right (byteSize before) l.size)
  simp only [advance]
  generalize dropEndWhile (· == '\r') l.content = line at *
  split
  · exact hlater
  · rename_i htrim
    split
    · cases found with
      | nil => exact hlater
      | cons e es =>
        have he := hf e (by simp)
        intro e' he'
        rcases List.mem_cons.mp he' with rfl | hes
        · exact ⟨he.1.extend hs he.2 (by simpa using htrim), extend_startsBy he.2 (by omega)⟩
        · exact hlater e' (by simp [hes])
    · split
      · exact hlater
      · split
        · exact hlater
        · rename_i e he
          have hfit := ofLine?_fits he
          intro e' he'
          rcases List.mem_cons.mp he' with rfl | hes
          · constructor
            · rw [hs, ← List.append_assoc]
              exact (hfit.shift before).append _
            · intro v hv
              obtain ⟨w, hw, rfl⟩ := Option.map_eq_some_iff.mp hv
              have := (hfit.value w hw).ordered
              have := (hfit.value w hw).bounded
              simp only [Span.shift_start]
              omega
          · exact hlater e' hes

theorem scanGo_fits {source : List Char} (ls : List Line) (before : List Char)
    (found : List Entry) (hs : source = before ++ ls.flatMap Line.chars)
    (hf : Kept source (byteSize before) found) :
    ∀ e ∈ scanGo source (byteSize before) found ls, e.Fits source := by
  induction ls generalizing before found with
  | nil =>
    intro e he
    exact (hf e (by simpa [scanGo] using he)).1
  | cons l ls ih =>
    have hnext : byteSize before + l.size = byteSize (before ++ l.chars) := by
      rw [byteSize_append, l.byteSize_chars]
    have hkept := advance_kept l (by simpa using hs) hf
    rw [hnext] at hkept
    rw [scanGo_cons, hnext]
    exact ih (before ++ l.chars) _ (by simpa using hs) hkept

theorem entries_fit (source : List Char) : ∀ e ∈ entries source, e.Fits source :=
  scanGo_fits (lines source) [] [] (flatMap_chars_lines source).symm (by simp [Kept])

end SlideDirectives.Yaml.Entry
