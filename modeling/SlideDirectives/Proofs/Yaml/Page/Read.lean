import Mathlib.Control.Monad.Basic
import SlideDirectives.Proofs.Yaml.Agree
import SlideDirectives.Proofs.Yaml.Distinct
import SlideDirectives.Proofs.Yaml.Page.Decode
import SlideDirectives.Proofs.Yaml.Page.Entries

/-!
# Pages are read as they are written

The entries found by lines and the mapping that the text decodes to agree
field by field, and the lines of a field are a page of their own where a key is
repeated. So the span of a value holds the scalar that it was read from, and
decoding that by itself gives the text of the value.
-/

set_option autoImplicit false

namespace SlideDirectives.Yaml.Page

open Text

section Clean

theorem dropReturns_inline {cs : List Char} (h : cs.all isInline = true) (rest : List Char) :
    dropReturns (cs ++ rest) = cs ++ dropReturns rest := by
  induction cs with
  | nil => rfl
  | cons c cs ih =>
    rw [List.all_cons, Bool.and_eq_true] at h
    have hreturn : c ≠ '\r' := isInline_ne h.1 (by decide)
    rw [List.cons_append, dropReturns, ih h.2]
    · rfl
    · intro tail hc
      exact absurd hc hreturn

theorem dropReturns_newline (newline : Newline) (rest : List Char) :
    dropReturns (newline.chars ++ rest) = '\n' :: dropReturns rest := by
  cases newline with
  | lf => simp [Newline.chars, dropReturns]
  | crlf => simp [Newline.chars, dropReturns]

theorem dropReturns_glued {newline : Newline} {ls : List (List Char)}
    (h : ∀ l ∈ ls, l.all isInline = true) :
    dropReturns (glued newline.chars ls) = glued ['\n'] ls := by
  induction ls with
  | nil => rfl
  | cons l ls ih =>
    have hl := h l List.mem_cons_self
    cases ls with
    | nil =>
      have hline := dropReturns_inline hl []
      simpa [glued, dropReturns] using hline
    | cons l' ls =>
      rw [glued_cons_cons, dropReturns_inline hl, dropReturns_newline,
        ih fun k hk => h k (List.mem_cons_of_mem l hk), glued_cons_cons]
      rfl

theorem clean_glued {newline : Newline} {ls : List (List Char)}
    (h : ∀ l ∈ ls, l.all isInline = true) : clean (glued newline.chars ls) = glued ['\n'] ls := by
  have hall : (glued ['\n'] ls).all (fun c => c != '\r') = true := by
    apply all_glued (by decide)
    intro l hl
    rw [List.all_eq_true]
    exact fun c hc => bne_iff_ne.mpr (isInline_ne (List.all_eq_true.mp (h l hl) c hc) (by decide))
  have hlast : (glued ['\n'] ls).getLast? ≠ some '\r' := by
    intro hlast
    have hreturn := List.all_eq_true.mp hall _ (List.mem_of_getLast? hlast)
    cases hreturn
  rw [clean, dropReturns_glued h]
  exact if_neg hlast

theorem clean_joined (newline : Newline) (rows : List Row) :
    clean (joined newline.chars rows) = joined ['\n'] rows :=
  clean_glued (rows_inline rows)

theorem Scalar.clean_written (s : Scalar) (newline : Newline) :
    clean (s.written newline.chars) = s.written ['\n'] :=
  clean_glued s.lines_inline

end Clean

section Written

variable {newline source before after : List Char} {f : Field}

structure Written (newline source : List Char) (f : Field) (e : Entry) : Prop where
  key : slice source e.key = f.key.chars
  value : e.value.map (slice source) = f.value.map (Scalar.written newline)
  line : slice source ⟨e.key.start, e.stop⟩ = trimEnd (f.chars newline)

theorem written_field (h : source = before ++ (f.chars newline ++ after)) :
    Written newline source f ((f.entry newline).shift (byteSize before)) := by
  constructor
  · apply Holds.slice_eq
    refine ⟨before, ':' :: f.behindColon newline ++ after, ?_, ?_⟩
    · rw [h, f.chars_eq]
      simp
    · simp only [Entry.shift, Field.entry, Span.shift, Span.mk.injEq]
      omega
  · cases hvalue : f.value with
    | none => simp only [Entry.shift, Field.entry, hvalue, Option.map_none]
    | some s =>
      have hspan : ((f.entry newline).shift (byteSize before)).value = some (Span.shift
          ⟨byteSize f.lead, byteSize f.lead + byteSize (s.written newline)⟩ (byteSize before)) := by
        simp only [Entry.shift, Field.entry, hvalue, Option.map_some]
      rw [hspan, Option.map_some, Option.map_some]
      apply congrArg some
      apply Holds.slice_eq
      refine ⟨before ++ f.lead, f.tail ++ after, ?_, ?_⟩
      · rw [h, f.chars_eq]
        simp [Field.behindColon, Field.lead, hvalue]
      · simp only [byteSize_append, Span.shift, Span.mk.injEq]
        omega
  · obtain ⟨blanks, hblanks⟩ := trimEnd_isPrefix (f.chars newline)
    apply Holds.slice_eq
    refine ⟨before, blanks ++ after, ?_, ?_⟩
    · rw [h, List.append_assoc, ← List.append_assoc _ blanks, hblanks]
    · simp only [Entry.shift, Field.entry, Span.shift, Span.mk.injEq]
      omega

theorem written_placed {rows : List Row} (h : source = before ++ joined newline rows) :
    ∀ p ∈ placed newline (byteSize before) rows, Written newline source p.1 p.2 := by
  induction rows generalizing before with
  | nil =>
    intro p hp
    cases hp
  | cons r rows ih =>
    intro p hp
    rw [joined_cons] at h
    rw [placed, ← byteSize_append] at hp
    rcases List.mem_append.mp hp with hp | hp
    · cases r with
      | fill n note => cases hp
      | field f =>
        obtain rfl := List.mem_singleton.mp hp
        exact written_field h
    · cases rows with
      | nil => cases hp
      | cons r' rows =>
        refine ih ?_ p hp
        obtain ⟨l, ls, hlines⟩ := r'.lines_cons
        rw [h, joined_cons]
        simp [glued, hlines]

theorem fields_placed (newline : List Char) (start : Nat) (rows : List Row) :
    (placed newline start rows).map Prod.fst = rows.filterMap Row.field? := by
  induction rows generalizing start with
  | nil => rfl
  | cons r rows ih =>
    rw [placed, List.map_append, ih]
    cases r <;> rfl

end Written

section Alone

def Note.trimmed (n : Note) : Note :=
  ⟨trimEnd n.text, by
    rw [List.all_eq_true]
    exact fun c hc => List.all_eq_true.mp n.graphic c ((trimEnd_isPrefix n.text).subset hc)⟩

def Field.trimmed (f : Field) : Field :=
  { f with
    spaces := if f.note.isSome then f.spaces else 0
    note := f.note.map Note.trimmed
    closed := by
      intro hlater
      simp [(f.closed hlater).2] }

theorem trimEnd_tail {before : List Char} {c : Char} (hc : isBlank c = false) (f : Field) :
    trimEnd (before ++ [c] ++ f.tail) = before ++ [c] ++ f.trimmed.tail := by
  cases hnote : f.note with
  | none =>
    have hspaces : ∀ d ∈ f.tail, isBlank d = true := by
      intro d hd
      rw [Field.tail, hnote, noteChars, List.append_nil] at hd
      rw [(List.mem_replicate.mp hd).2]
      decide
    have htail : f.trimmed.tail = [] := by simp [Field.tail, Field.trimmed, hnote, noteChars]
    rw [htail, List.append_nil, trimEnd, dropEndWhile_append_all hspaces]
    exact dropEndWhile_concat before hc
  | some n =>
    have hhash : dropEndWhile isBlank ('#' :: n.text) = '#' :: trimEnd n.text :=
      dropEndWhile_cons (by decide) n.text
    have hne : dropEndWhile isBlank ('#' :: n.text) ≠ [] := by
      rw [hhash]
      exact List.cons_ne_nil _ _
    have htail : before ++ [c] ++ f.tail =
        (before ++ [c] ++ (List.replicate f.spaces ' ' ++ [' '])) ++ '#' :: n.text := by
      simp [Field.tail, hnote, noteChars]
    rw [htail, trimEnd, dropEndWhile_append _ hne, hhash]
    simp [Field.tail, Field.trimmed, Note.trimmed, hnote, noteChars]

theorem Field.trimmed_chars (newline : List Char) (f : Field) :
    f.trimmed.chars newline = trimEnd (f.chars newline) := by
  rw [f.trimmed.chars_eq, f.chars_eq]
  have hkey : f.trimmed.key = f.key := rfl
  cases hvalue : f.value with
  | none =>
    have htrim := @trimEnd_tail f.key.chars ':' (by decide) f
    simp only [List.append_assoc, List.cons_append, List.nil_append] at htrim
    have hbehind : ∀ g : Field, g.value = none → g.behindColon newline = g.tail := by
      intro g hg
      simp [Field.behindColon, hg]
    rw [hbehind f hvalue, hbehind f.trimmed hvalue, hkey, htrim]
  | some s =>
    obtain ⟨before, c, hconcat, hc⟩ := s.written_concat newline
    have hbehind : ∀ g : Field, g.value = some s → g.behindColon newline =
        List.replicate (g.gap + 1) ' ' ++ (before ++ [c] ++ g.tail) := by
      intro g hg
      simp [Field.behindColon, hg, hconcat]
    have htrim := @trimEnd_tail
      (f.key.chars ++ ':' :: (List.replicate (f.gap + 1) ' ' ++ before)) c hc f
    simp only [List.append_assoc, List.cons_append] at htrim
    rw [hbehind f hvalue, hbehind f.trimmed hvalue, hkey]
    simp only [List.append_assoc, List.cons_append]
    rw [htrim]
    rfl

theorem decode_lines (f : Field) (newline : Newline) :
    decode (clean (trimEnd (f.chars newline.chars))) = .ok (.mapping [f.decoded]) := by
  have hlines : trimEnd (f.chars newline.chars) = joined newline.chars [.field f.trimmed] := by
    rw [← f.trimmed_chars, joined_cons]
    exact (List.append_nil _).symm
  have hfield : [Row.field f.trimmed].filterMap Row.field? ≠ [] := List.cons_ne_nil _ _
  rw [hlines, clean_joined, decode_joined hfield]
  rfl

end Alone

section Agree

variable {newline : Newline} {source : List Char} {f : Field} {e : Entry}

theorem unquote_key (k : Key) : Outline.unquote decode k.chars = k.chars := by
  obtain ⟨c, rest, hcs, hstart, -⟩ := isKey_cons k.wellFormed
  rw [hcs]
  simp [Outline.unquote, isQuote_word (isWord_of_isKeyStart hstart)]

theorem isKey_key (k : Key) : Outline.isKey decode k.chars k.value = true := by
  rw [Outline.isKey, decode_key]
  exact k.same_self

theorem Written.agrees (h : Written newline.chars source f e) :
    Outline.Agrees decode source e f.decoded := by
  constructor
  · rw [h.key]
    exact isKey_key f.key
  · rw [h.line]
    exact decode_lines f newline

theorem Written.pairOf_eq (h : Written newline.chars source f e) :
    Outline.pairOf decode source e f.decoded = f.pair newline.chars e := by
  rw [Outline.pairOf, Field.pair, h.key, unquote_key]
  have hslice := h.value
  cases hspan : e.value with
  | none => simp
  | some v =>
    rw [hspan, Option.map_some] at hslice
    cases hvalue : f.value with
    | none =>
      rw [hvalue] at hslice
      cases hslice
    | some s =>
      rw [hvalue, Option.map_some] at hslice
      simp [Field.decoded, hvalue, Option.some.inj hslice]

end Agree

section Read

theorem written_pairs (p : Page) :
    ∀ x ∈ placed p.newline.chars 0 p.rows, Written p.newline.chars p.text x.1 x.2 := by
  have htext : p.text = [] ++ joined p.newline.chars p.rows := rfl
  exact written_placed htext

theorem fields_ne_nil (p : Page) : p.rows.filterMap Row.field? ≠ [] := by
  obtain ⟨r, hr, hfield⟩ := List.any_eq_true.mp p.hasField
  obtain ⟨f, hf⟩ := Option.isSome_iff_exists.mp hfield
  exact List.ne_nil_of_mem (List.mem_filterMap.mpr ⟨r, hr, hf⟩)

theorem mem_glued {newline l : List Char} {ls : List (List Char)} {c : Char} (hl : l ∈ ls)
    (hc : c ∈ l) : c ∈ glued newline ls := by
  cases ls with
  | nil => cases hl
  | cons k ks =>
    rw [glued]
    rcases List.mem_cons.mp hl with rfl | hl
    · exact List.mem_append_left _ hc
    · exact List.mem_append_right _
        (List.mem_flatMap.mpr ⟨l, hl, List.mem_append_right newline hc⟩)

theorem isEmpty_trim_clean (p : Page) : (trim (clean p.text)).isEmpty = false := by
  obtain ⟨r, hr, hfield⟩ := List.any_eq_true.mp p.hasField
  cases r with
  | fill n note => cases hfield
  | field f =>
    obtain ⟨c, cs, ls, hlines, hstart⟩ := f.lines_cons
    have hmem : c::cs ∈ p.rows.flatMap Row.lines := by
      refine List.mem_flatMap.mpr ⟨.field f, hr, ?_⟩
      rw [Row.lines, hlines]
      exact List.mem_cons_self
    rw [text, clean_joined]
    exact isEmpty_trim (mem_glued hmem List.mem_cons_self)
      (isBlank_of_isWord (isWord_of_isKeyStart hstart))

theorem read_page (p : Page) : Outline.read p.text = .mapping p.pairs := by
  have hwritten := written_pairs p
  have hentries : entries p.text = (placed p.newline.chars 0 p.rows).map Prod.snd :=
    entries_joined p.newline p.rows
  have hfields := fields_placed p.newline.chars 0 p.rows
  have hplaced : placed p.newline.chars 0 p.rows ≠ [] := by
    intro hnil
    apply fields_ne_nil p
    rw [← hfields, hnil, List.map_nil]
  have hdecode : decode (clean p.text) =
      if repeatsKey [] (p.fields.map Field.decoded) then .error (.duplicateKey ['.'])
      else .ok (.mapping ((placed p.newline.chars 0 p.rows).map fun x => x.1.decoded)) := by
    rw [text, clean_joined, decode_joined (fields_ne_nil p), ← hfields, List.map_map, fields,
      ← hfields, List.map_map]
    rfl
  rw [Outline.read_agrees (isEmpty_trim_clean p) hplaced hentries hdecode
    fun x hx => (hwritten x hx).agrees]
  exact congrArg Outline.mapping (List.map_congr_left fun x hx => (hwritten x hx).pairOf_eq)

/-- A value that is read of a page, with the scalar that its span holds. -/
theorem exists_scalar {p : Page} {q : Pair} (hq : q ∈ p.pairs) {v : Item} (hv : q.value = some v) :
    ∃ s : Scalar, slice p.text v.span = s.written p.newline.chars ∧
      v.text = Outline.valueText (s.written p.newline.chars) s.value := by
  obtain ⟨⟨f, e⟩, hx, rfl⟩ := List.mem_map.mp hq
  obtain ⟨s, hs, hv⟩ := Option.bind_eq_some_iff.mp hv
  obtain ⟨span, hspan, rfl⟩ := Option.map_eq_some_iff.mp hv
  have hslice : e.value.map (slice p.text) = f.value.map (Scalar.written p.newline.chars) :=
    (written_pairs p (f, e) hx).value
  simp only at hs hspan
  rw [hs, hspan, Option.map_some, Option.map_some] at hslice
  exact ⟨s, Option.some.inj hslice, rfl⟩

theorem Scalar.later_eq_nil {s : Scalar} {newline : Newline}
    (h : '\n' ∉ s.written newline.chars) : s.later = [] := by
  cases hlater : s.later with
  | nil => rfl
  | cons l ls =>
    refine absurd ?_ h
    rw [Scalar.written, hlater, glued_cons_cons, newline.chars_eq]
    simp

/-- A plain scalar of one line has its text for a value, or none that is a string. -/
theorem Scalar.valueText_line {s : Scalar} {newline : Newline}
    (hquote : ∀ c ∈ (s.written newline.chars).head?, Entry.isQuote c = false)
    (hline : '\n' ∉ s.written newline.chars) :
    Outline.valueText (s.written newline.chars) s.value = s.written newline.chars := by
  have hlater := Scalar.later_eq_nil hline
  have hwritten := Scalar.written_line hlater
  have hspelled := s.spelled_written
  have hlast := s.last_written
  rw [hwritten] at hspelled hlast hquote ⊢
  obtain ⟨htext, hstyle⟩ := hspelled.text_eq s.inline hlast hquote
  have hvalue := s.resolved
  rw [htext, hstyle] at hvalue
  exact valueText_plain hvalue

/-- A page is read as the pairs of its fields, in order. The span of a value is
where its scalar is written; the text of the value is what the scalar decodes to
by itself, or what is written if it does not decode to a string. A value of one
line without quotes has the text that is written. -/
theorem read_values (p : Page) :
    (Outline.read p.text).pairs.map
        (fun q => (q.key.text, q.value.map (fun v => slice p.text v.span))) =
      p.fields.map (fun f => (f.key.chars, f.value.map (Scalar.written p.newline.chars))) ∧
    ∀ q ∈ (Outline.read p.text).pairs, ∀ v, q.value = some v →
      (∃ value, decode (clean (slice p.text v.span)) = .ok value ∧
        v.text = Outline.valueText (slice p.text v.span) value) ∧
      ((∀ c ∈ (slice p.text v.span).head?, Entry.isQuote c = false) →
        '\n' ∉ slice p.text v.span → v.text = slice p.text v.span) := by
  have hfields : p.fields = (placed p.newline.chars 0 p.rows).map Prod.fst :=
    (fields_placed p.newline.chars 0 p.rows).symm
  rw [read_page, Outline.pairs]
  constructor
  · rw [hfields, pairs, List.map_map, List.map_map]
    apply List.map_congr_left
    intro x hx
    have hslice := (written_pairs p x hx).value
    simp only [Function.comp_apply, Field.pair, Prod.mk.injEq, true_and, ← hslice]
    cases hvalue : x.1.value with
    | none =>
      rw [hvalue, Option.map_none] at hslice
      rw [hslice]
      rfl
    | some s =>
      rw [Option.bind_some, Option.map_map]
      rfl
  · intro q hq v hv
    obtain ⟨s, hslice, htext⟩ := exists_scalar hq hv
    rw [hslice, htext]
    refine ⟨⟨s.value, ?_, rfl⟩, Scalar.valueText_line⟩
    rw [s.clean_written, s.decode_written]

theorem read_values_quoted :
    let source := "a: \"x\\t\r\n\r\n  y # z\"\r\na:  it's # z".toList
    let first : Item := ⟨"x\t\ny # z".toList, ⟨3, 19⟩⟩
    let second : Item := ⟨"it's".toList, ⟨25, 29⟩⟩
    (Outline.read source).pairs = [⟨⟨['a'], ⟨0, 1⟩⟩, some first⟩, ⟨⟨['a'], ⟨21, 22⟩⟩, some second⟩] ∧
      (∃ value, decode (clean (slice source first.span)) = .ok value ∧
        first.text = Outline.valueText (slice source first.span) value) ∧
      second.text = slice source second.span := by
  intro source first second
  let key : Key := ⟨['a'], rfl, by decide⟩
  let quoted : Scalar := ⟨"\"x\\t".toList, [[], "  y # z\"".toList], "x\t\ny # z".toList,
    .doubleQuoted, .string "x\t\ny # z".toList, by decide +kernel, rfl, by decide +kernel,
    by decide +kernel, by decide +kernel⟩
  let plain : Scalar := ⟨"it's".toList, [], "it's".toList, .plain, .string "it's".toList,
    by decide +kernel, by decide +kernel, by decide +kernel, rfl, by decide +kernel⟩
  let p : Page := ⟨[.field ⟨key, 0, some quoted, 0, none, fun _ => ⟨rfl, rfl⟩⟩,
    .field ⟨key, 1, some plain, 0, some ⟨" z".toList, by decide⟩, fun h => by cases h⟩], .crlf, rfl⟩
  have hsource : p.text = source := by decide +kernel
  have hpairs : (Outline.read source).pairs =
      [⟨⟨['a'], ⟨0, 1⟩⟩, some first⟩, ⟨⟨['a'], ⟨21, 22⟩⟩, some second⟩] := by
    decide +kernel
  have hslice : slice source second.span = "it's".toList := by decide +kernel
  have hquote : ∀ c ∈ (slice source second.span).head?, Entry.isQuote c = false := by
    intro c hc
    rw [hslice] at hc
    obtain rfl := Option.some.inj hc
    rfl
  have hline : '\n' ∉ slice source second.span := by
    rw [hslice]
    decide
  have hvalues := (read_values p).2
  rw [hsource, hpairs] at hvalues
  refine ⟨hpairs, (hvalues _ List.mem_cons_self first rfl).1, ?_⟩
  exact (hvalues _ (List.mem_cons_of_mem _ List.mem_cons_self) second rfl).2 hquote hline

/-- A line that starts like a comment is left out of the span, though it is quoted. -/
theorem read_values_hash :
    let source := "a: 'x\n  # y'".toList
    decode (clean source) = .ok (.mapping [(.string ['a'], .string "x # y".toList)]) ∧
      Outline.read source = .mapping [⟨⟨['a'], ⟨0, 1⟩⟩, some ⟨"x # y".toList, ⟨3, 5⟩⟩⟩] ∧
      decode (clean (slice source ⟨3, 5⟩)) = .error .malformed := by
  decide +kernel

end Read

section Line

def linePair (key : Key) (value : List Char) : Pair :=
  let start := byteSize key.chars + 2
  ⟨⟨key.chars, ⟨0, byteSize key.chars⟩⟩, some ⟨value, ⟨start, start + byteSize value⟩⟩⟩

theorem PlainLine.read {value : List Char} (h : PlainLine value)
    (hnarrow : Number.whole? value ≠ some .tooWide) (key : Key) :
    Outline.read (key.chars ++ ':' :: ' ' :: (value ++ ['\n'])) =
      .mapping [linePair key value] := by
  obtain ⟨s, hfirst, hlater, htext⟩ := h.exists_scalar hnarrow
  let f : Field := ⟨key, 0, some s, 0, none, fun _ => ⟨rfl, rfl⟩⟩
  let p : Page := ⟨[.field f, .fill 0 none], .lf, rfl⟩
  have hpage : p.text = key.chars ++ ':' :: ' ' :: (value ++ ['\n']) := by
    simp [Page.text, joined, p, f, Row.lines, Field.lines, Field.lead, Field.tail, hfirst, hlater,
      glued, Newline.chars, noteChars, hashChars]
  have hwritten : s.written ['\n'] = value := by
    rw [Scalar.written_line hlater, hfirst]
  have hpairs : p.pairs = [linePair key value] := by
    simp [Page.pairs, placed, p, f, Row.field?, Field.pair, Field.entry, Field.lead, hwritten, htext,
      Newline.chars, linePair, Entry.shift, Span.shift, byteSize_append, byteSize]
    rfl
  rw [← hpage, read_page, hpairs]

end Line

end SlideDirectives.Yaml.Page
