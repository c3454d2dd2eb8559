import SlideDirectives.Proofs.Text.Returns
import SlideDirectives.Proofs.Yaml.Blank
import SlideDirectives.Proofs.Yaml.Page.Around

/-!
# Overwriting a value of a page

A value of a page is overwritten by a word of letters and digits. The page then
has the word as the text of that value, and what is written behind it moves by
the difference in size, whatever the word spells. Only a whole number past 64
bits but within 128 spells no value, and the page with it is refused.
-/

set_option autoImplicit false

namespace SlideDirectives.Text

def Span.resized (s : Span) (size n : Nat) : Nat :=
  s.start + size + (n - s.stop)

end SlideDirectives.Text

namespace SlideDirectives.Yaml

open Text

def Pair.map (f : Nat → Nat) (p : Pair) : Pair :=
  ⟨⟨p.key.text, p.key.span.map f⟩, p.value.map fun v => ⟨v.text, v.span.map f⟩⟩

namespace Page

variable {w : List Char}

section Rows

variable {newline : List Char}

theorem placed_append (newline : List Char) (start : Nat) (before after : List Row) :
    placed newline start (before ++ after) =
      placed newline start before ++
        placed newline (start + byteSize (ended newline before)) after := by
  induction before generalizing start with
  | nil => rfl
  | cons b before ih =>
    rw [List.cons_append, placed, ih, placed, List.append_assoc, ended_cons,
      byteSize_append (glued newline b.lines ++ newline), Nat.add_assoc start]

theorem placed_shift (newline : List Char) (start n : Nat) (rows : List Row) :
    placed newline (start + n) rows =
      (placed newline start rows).map fun x => (x.1, x.2.shift n) := by
  induction rows generalizing start with
  | nil => rfl
  | cons r rows ih =>
    have hstart : start + n + byteSize (glued newline r.lines ++ newline) =
        start + byteSize (glued newline r.lines ++ newline) + n := by
      omega
    rw [placed, placed, List.map_append, hstart, ih]
    cases r with
    | fill spaces note => rfl
    | field f =>
      simp [Row.field?, Entry.shift, Span.shift_shift, Nat.add_assoc, Function.comp_def]

theorem exists_rows {start : Nat} {rows : List Row} {f : Field} {e : Entry}
    {xs ys : List (Field × Entry)} (h : placed newline start rows = xs ++ (f, e) :: ys) :
    ∃ before after, rows = before ++ .field f :: after ∧ placed newline start before = xs := by
  induction rows generalizing start xs with
  | nil => simp [placed] at h
  | cons r rows ih =>
    have hlater : ∀ {xs'}, xs = r.field?.toList.map (fun f => (f, (f.entry newline).shift start)) ++ xs' →
        ∃ before after, r::rows = before ++ .field f :: after ∧ placed newline start before = xs := by
      rintro xs' rfl
      rw [placed, List.append_assoc] at h
      obtain ⟨before, after, rfl, hbefore⟩ := ih (List.append_cancel_left h)
      refine ⟨r::before, after, rfl, ?_⟩
      rw [placed, hbefore]
    cases r with
    | fill spaces note => exact hlater (List.nil_append xs).symm
    | field g =>
      cases xs with
      | nil =>
        obtain ⟨heq, -⟩ := List.cons.inj h
        obtain ⟨rfl, -⟩ := Prod.mk.inj heq
        exact ⟨[], rows, rfl, rfl⟩
      | cons x xs =>
        obtain ⟨rfl, -⟩ := List.cons.inj h
        exact hlater rfl

end Rows

section Field

variable {newline : List Char} {f : Field} {s : Scalar}

def Field.withValue (f : Field) (s : Scalar) (h : s.later = []) : Field :=
  { f with
    value := some s
    closed := by simp [h] }

theorem Field.chars_value (hvalue : f.value = some s) :
    f.chars newline = f.lead ++ (s.written newline ++ f.tail) := by
  simp [f.chars_eq, Field.behindColon, hvalue, Field.lead]

theorem Field.pair_value (hvalue : f.value = some s) (n : Nat) :
    f.pair newline ((f.entry newline).shift n) =
      ⟨⟨f.key.chars, ⟨n, n + byteSize f.key.chars⟩⟩,
        some ⟨Outline.valueText (s.written newline) s.value,
          ⟨n + byteSize f.lead, n + byteSize f.lead + byteSize (s.written newline)⟩⟩⟩ := by
  simp only [Field.pair, Entry.shift, Field.entry, hvalue, Option.map_some, Option.bind_some,
    Span.shift, Nat.zero_add, Nat.add_comm n, Nat.add_right_comm _ n]

theorem Field.pair_shift {g : Nat → Nat} {m n : Nat} (h : ∀ k, g (k + m) = k + n) (e : Entry) :
    (f.pair newline (e.shift m)).map g = f.pair newline (e.shift n) := by
  simp [Field.pair, Pair.map, Entry.shift, Span.map, Span.shift, h, Option.map_bind, Function.comp_def]

end Field

section Overwrite

variable {newline : List Char} {before after : List Pair} {key v : Item} {w : List Char}

def pairsFrom (newline : List Char) (start : Nat) (rows : List Row) : List Pair :=
  (placed newline start rows).map fun x => x.1.pair newline x.2

theorem pairsFrom_field (newline : List Char) (above below : List Row) (f : Field) :
    pairsFrom newline 0 (above ++ .field f :: below) =
      pairsFrom newline 0 above ++
        f.pair newline ((f.entry newline).shift (byteSize (ended newline above))) ::
          pairsFrom newline (byteSize (ended newline above) + byteSize (f.chars newline ++ newline))
            below := by
  rw [pairsFrom, placed_append, List.map_append, Nat.zero_add]
  rfl

/-- A pair comes from a field, and the pairs beside it from the rows beside that. -/
theorem exists_field {rows : List Row} {q : Pair} (h : pairsFrom newline 0 rows = before ++ q :: after) :
    ∃ above f below, rows = above ++ .field f :: below ∧ before = pairsFrom newline 0 above ∧
      q = f.pair newline ((f.entry newline).shift (byteSize (ended newline above))) ∧
      after = pairsFrom newline
        (byteSize (ended newline above) + byteSize (f.chars newline ++ newline)) below := by
  obtain ⟨xs, zs, hplaced, rfl, hzs⟩ := List.map_eq_append_iff.mp h
  obtain ⟨⟨f, e⟩, ys, rfl, -, -⟩ := List.map_eq_cons_iff.mp hzs
  obtain ⟨above, below, rfl, rfl⟩ := exists_rows hplaced
  rw [pairsFrom_field] at h
  obtain ⟨hq, hafter⟩ := List.cons.inj (List.append_cancel_left h)
  exact ⟨above, f, below, rfl, rfl, hq.symm, hafter.symm⟩

/-- Behind a field whose size changes, pairs move by the difference. -/
theorem map_pairsFrom {g : Nat → Nat} {m n : Nat} (h : ∀ k, g (k + m) = k + n) (newline : List Char)
    (rows : List Row) : (pairsFrom newline m rows).map (Pair.map g) = pairsFrom newline n rows := by
  rw [← Nat.zero_add m, ← Nat.zero_add n, pairsFrom, pairsFrom, placed_shift, placed_shift,
    List.map_map, List.map_map, List.map_map]
  apply List.map_congr_left
  intro x _
  exact Field.pair_shift h x.2

theorem joined_append (newline : List Char) (above below : List Row) (f : Field) :
    joined newline (above ++ .field f :: below) =
      ended newline above ++
        (f.chars newline ++ (below.flatMap Row.lines).flatMap (newline ++ ·)) := by
  obtain ⟨c, cs, ls, hlines, -⟩ := f.lines_cons
  have hrows : (above ++ .field f :: below).flatMap Row.lines =
      above.flatMap Row.lines ++ (c::cs) :: (ls ++ below.flatMap Row.lines) := by
    rw [List.flatMap_append, List.flatMap_cons, Row.lines, hlines, List.cons_append]
  rw [joined, hrows, glued_append, Field.chars, hlines, glued, List.flatMap_append,
    List.append_assoc]

theorem overwrite_value {f : Field} {s : Scalar} (hvalue : f.value = some s) (newline w : List Char)
    (above below : List Row) :
    overwrite (joined newline (above ++ .field f :: below))
        ⟨byteSize (ended newline above) + byteSize f.lead,
          byteSize (ended newline above) + byteSize f.lead + byteSize (s.written newline)⟩ w =
      glued newline (linesAround above (f.lead ++ (w ++ f.tail)) below) := by
  rw [joined_append, Field.chars_value hvalue, linesAround, glued_append, ← byteSize_append]
  simp only [List.append_assoc]
  rw [← List.append_assoc, overwrite_append, List.append_assoc]

theorem Field.chars_withValue (f : Field) {t : Scalar} (ht : t.later = []) (newline : List Char) :
    (f.withValue t ht).chars newline = f.lead ++ (t.first ++ f.tail) := by
  rw [Field.chars_value rfl, Scalar.written_line ht]
  rfl

theorem joined_withValue (f : Field) {t : Scalar} (ht : t.later = []) (newline : List Char)
    (above below : List Row) :
    joined newline (above ++ .field (f.withValue t ht) :: below) =
      glued newline (linesAround above (f.lead ++ (t.first ++ f.tail)) below) := by
  rw [joined_append, linesAround, glued_append, Field.chars_withValue]

theorem resized_value {f : Field} {s t : Scalar} (hvalue : f.value = some s) (ht : t.later = [])
    (newline : List Char) (n k : Nat) :
    Span.resized ⟨n + byteSize f.lead, n + byteSize f.lead + byteSize (s.written newline)⟩
        (byteSize t.first) (k + (n + byteSize (f.chars newline ++ newline))) =
      k + (n + byteSize ((f.withValue t ht).chars newline ++ newline)) := by
  rw [Field.chars_value hvalue, Field.chars_withValue]
  simp only [Span.resized, byteSize_append]
  omega

end Overwrite

section Refused

/-- A word that spells no value is refused where it stands for one, if not for a
repeated key. -/
theorem decode_wide (f : Field) (hline : PlainLine w)
    (hwide : Number.whole? w = some .tooWide) (above below : List Row) :
    decode (glued ['\n'] (linesAround above (f.lead ++ (w ++ f.tail)) below)) =
      .error (if repeatsKey [] ((bindings above).map Binding.found) ||
        ((bindings above).map Binding.found).any (fun e => e.1.same f.key.value)
        then .duplicateKey ['.'] else .invalidValue f.key.chars) := by
  have hvalue : Decode.scalarValue? none w .plain = none := plainValue_wide hwide
  exact decode_around (plainValue_key f.key) hvalue (ofText_around f hline above below)

/-- The entry of a word that spells no value is refused by itself. -/
theorem alone?_wide (f : Field) (hline : PlainLine w)
    (hwide : Number.whole? w = some .tooWide) {newline : List Char} (above below : List Row) :
    Outline.alone? decode (glued newline (linesAround above (f.lead ++ (w ++ f.tail)) below))
      ((f.wordEntry w).shift (byteSize (ended newline above))) = none := by
  obtain ⟨blanks, hblanks⟩ := trimEnd_isPrefix (f.lead ++ (w ++ f.tail))
  have hslice : slice (glued newline (linesAround above (f.lead ++ (w ++ f.tail)) below))
      ⟨((f.wordEntry w).shift (byteSize (ended newline above))).key.start,
        ((f.wordEntry w).shift (byteSize (ended newline above))).stop⟩ =
      trimEnd (f.lead ++ (w ++ f.tail)) := by
    apply Holds.slice_eq
    refine ⟨ended newline above, blanks ++ (below.flatMap Row.lines).flatMap (newline ++ ·), ?_, ?_⟩
    · rw [linesAround, glued_append, List.append_assoc _ (trimEnd _), ← List.append_assoc (trimEnd _),
        hblanks]
    · simp only [Entry.shift, Field.wordEntry, Span.shift, Span.mk.injEq]
      omega
  -- Cut out at the end of its line, the entry has lost the blanks there: it is
  -- the line of another field.
  have htrim : trimEnd (f.lead ++ (w ++ f.tail)) =
      glued Newline.lf.chars (linesAround [] (f.trimmed.lead ++ (w ++ f.trimmed.tail)) []) := by
    obtain ⟨ws, c, rfl⟩ := (List.eq_nil_or_concat' w).resolve_left hline.ne_nil
    have htail := @trimEnd_tail (f.lead ++ ws) c (hline.last c (by simp)) f
    simpa [linesAround, glued, Field.lead, Field.trimmed] using htail
  have hinline := linesAround_inline (f.trimmed.line_inline hline.inline) [] []
  have hdecode := decode_wide f.trimmed hline hwide [] []
  rw [Outline.alone?, hslice, htrim, clean_glued hinline, hdecode]

theorem read_wide (f : Field) (hline : PlainLine w)
    (hwide : Number.whole? w = some .tooWide) (newline : Newline) (above below : List Row) :
    Outline.read (glued newline.chars (linesAround above (f.lead ++ (w ++ f.tail)) below)) =
      .malformed := by
  have hentry : (f.wordEntry w).shift (byteSize (ended newline.chars above)) ∈
      entries (glued newline.chars (linesAround above (f.lead ++ (w ++ f.tail)) below)) := by
    rw [entries_around f hline]
    exact List.mem_append_right _ List.mem_cons_self
  have hblank := Outline.isEmpty_trim_of_mem hentry
  have hclean := @clean_glued newline _
    (linesAround_inline (f.line_inline hline.inline) above below)
  -- A repeated key before the word is reported first, and then each entry is
  -- read by itself. That of the word is refused there once more.
  have hnone : Outline.locateEach? decode
      (glued newline.chars (linesAround above (f.lead ++ (w ++ f.tail)) below))
      (entries (glued newline.chars (linesAround above (f.lead ++ (w ++ f.tail)) below))) = none :=
    Outline.locateEach?_eq_none.mpr ⟨_, hentry, alone?_wide f hline hwide above below⟩
  rw [hclean] at hblank
  rw [Outline.read, Outline.readWith]
  simp only [hclean, hblank, decode_wide f hline hwide, hnone, Bool.false_eq_true, if_false,
    ite_self]

end Refused

section Read

variable {before after : List Pair} {key v : Item}

/-- With a word in the place of a value, a page has the word as the text of that
value. The pairs above stay and the pairs below move by the difference in size,
whatever the word spells. If it spells no value, all pairs are lost. -/
theorem read_overwrite_word (p : Page)
    (h : (Outline.read p.text).pairs = before ++ ⟨key, some v⟩ :: after) (hw : w ≠ [])
    (hword : w.all Char.isAlphanum = true) :
    Outline.read (overwrite p.text v.span w) =
      if Number.whole? w = some .tooWide then .malformed
      else .mapping (before ++ ⟨key, some ⟨w, ⟨v.span.start, v.span.start + byteSize w⟩⟩⟩ ::
        after.map (Pair.map (v.span.resized (byteSize w)))) := by
  obtain ⟨rows, newline, hfield⟩ := p
  rw [read_page] at h
  obtain ⟨above, f, below, rfl, rfl, hq, rfl⟩ := exists_field h
  cases hvalue : f.value with
  | none => simp [Field.pair, hvalue] at hq
  | some s =>
    rw [Field.pair_value hvalue, Pair.mk.injEq, Option.some.injEq] at hq
    obtain ⟨rfl, rfl⟩ := hq
    rw [text, overwrite_value hvalue]
    have hline := plainLine_word hw hword
    by_cases hwide : Number.whole? w = some .tooWide
    · rw [if_pos hwide]
      exact read_wide f hline hwide newline above below
    · rw [if_neg hwide]
      obtain ⟨t, rfl, hlater, htext⟩ := hline.exists_scalar hwide
      have hfield' : (above ++ .field (f.withValue t hlater) :: below).any (·.field?.isSome) = true := by
        simp [Row.field?]
      have hread := read_page ⟨above ++ .field (f.withValue t hlater) :: below, newline, hfield'⟩
      rw [text, joined_withValue] at hread
      rw [hread]
      change Outline.mapping (pairsFrom newline.chars 0 _) = _
      rw [map_pairsFrom (resized_value hvalue hlater newline.chars _), pairsFrom_field,
        Field.pair_value rfl, Scalar.written_line hlater, htext]
      rfl

theorem read_overwrite_word_hex :
    let source := "a: 1\r\nb: off # x\r\na: '2'".toList
    let word := "0x1F".toList
    let above : List Pair := [⟨⟨['a'], ⟨0, 1⟩⟩, some ⟨['1'], ⟨3, 4⟩⟩⟩]
    let below : List Pair := [⟨⟨['a'], ⟨18, 19⟩⟩, some ⟨['2'], ⟨21, 24⟩⟩⟩]
    (Outline.read source).pairs = above ++ ⟨⟨['b'], ⟨6, 7⟩⟩, some ⟨"off".toList, ⟨9, 12⟩⟩⟩ :: below ∧
      word ≠ [] ∧ word.all Char.isAlphanum = true ∧
      Outline.read (overwrite source ⟨9, 12⟩ word) =
        .mapping (above ++ ⟨⟨['b'], ⟨6, 7⟩⟩, some ⟨word, ⟨9, 13⟩⟩⟩ ::
          [⟨⟨['a'], ⟨19, 20⟩⟩, some ⟨['2'], ⟨22, 25⟩⟩⟩]) := by
  intro source word above below
  let key (c : Char) (h : isKey [c] = true) : Key := ⟨[c], h, by
    have hsize := c.utf8Size_le_four
    simp only [byteSize]
    omega⟩
  let one : Scalar := ⟨['1'], [], ['1'], .plain, .number (.natural 1), by decide +kernel,
    by decide +kernel, by decide, rfl, by decide +kernel⟩
  let off : Scalar := ⟨"off".toList, [], "off".toList, .plain, .string "off".toList,
    by decide +kernel, by decide +kernel, by decide, rfl, by decide +kernel⟩
  let two : Scalar := ⟨"'2'".toList, [], ['2'], .singleQuoted, .string ['2'], by decide +kernel,
    rfl, by decide, rfl, by decide +kernel⟩
  let p : Page := ⟨[.field ⟨key 'a' rfl, 0, some one, 0, none, fun h => by cases h⟩,
    .field ⟨key 'b' rfl, 0, some off, 0, some ⟨" x".toList, by decide⟩, fun h => by cases h⟩,
    .field ⟨key 'a' rfl, 0, some two, 0, none, fun h => by cases h⟩], .crlf, rfl⟩
  have hsource : p.text = source := by decide +kernel
  have hpairs : (Outline.read source).pairs =
      above ++ ⟨⟨['b'], ⟨6, 7⟩⟩, some ⟨"off".toList, ⟨9, 12⟩⟩⟩ :: below := by
    decide +kernel
  have hne : word ≠ [] := by decide
  have hword : word.all Char.isAlphanum = true := by decide
  have hread := read_overwrite_word p (hsource ▸ hpairs) hne hword
  have hnarrow : Number.whole? word ≠ some .tooWide := by decide
  rw [hsource, if_neg hnarrow] at hread
  exact ⟨hpairs, hne, hword, hread⟩

/-- Twenty nines in the place of the only value leave no pair. -/
theorem read_overwrite_wide :
    let source := "a: 1".toList
    let word := "99999999999999999999".toList
    Outline.read source = .mapping [⟨⟨['a'], ⟨0, 1⟩⟩, some ⟨['1'], ⟨3, 4⟩⟩⟩] ∧
      word.all Char.isAlphanum = true ∧
      overwrite source ⟨3, 4⟩ word = "a: 99999999999999999999".toList ∧
      Outline.read (overwrite source ⟨3, 4⟩ word) = .malformed := by
  decide +kernel

end Read

end Page

end SlideDirectives.Yaml
