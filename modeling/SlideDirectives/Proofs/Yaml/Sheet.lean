import SlideDirectives.Proofs.Yaml.Page.Read

/-!
# Sheets

A sheet is a body of one pair a line: a key, a colon, and a plain value, a
value in single quotes or none, with a comment allowed behind it. Blank lines
and lines of comments stand anywhere, and all lines end in the same way. So it
is a page whose scalars have one line each, and it is read as the page.
-/

set_option autoImplicit false

namespace SlideDirectives.Yaml.Sheet

open Text Page

def isPhrase : List Char → Bool
  | [] => false
  | [c] => isValueChar c
  | c::d::cs => (isValueChar c || (c == ' ' && isValueChar d)) && isPhrase (d::cs)

def isPlain : List Char → Bool
  | [] => false
  | c::cs => c.isAlpha && isPhrase (c::cs)

/-- The text of a value in quotes is the text without the doubling of quotes. -/
inductive Value where
  | missing
  | plain (text : List Char) (wellFormed : isPlain text = true)
  | quoted (text : List Char) (graphic : text.all isGraphic = true)

structure Field where
  key : Key
  value : Value
  note : Option Note

inductive Row where
  | blank (spaces : Nat)
  | comment (spaces : Nat) (note : Note)
  | field (f : Field)

def doubled : List Char → List Char
  | [] => []
  | c::cs => if c = '\x27' then '\x27' :: '\x27' :: doubled cs else c :: doubled cs

namespace Value

def text : Value → List Char
  | missing => []
  | plain text _ => text
  | quoted text _ => text

def written? : Value → Option (List Char)
  | missing => none
  | plain text _ => some text
  | quoted text _ => some ('\x27' :: (doubled text ++ ['\x27']))

def chars (v : Value) : List Char :=
  match v.written? with
  | none => []
  | some written => ' ' :: written

end Value

namespace Field

def chars (f : Field) : List Char :=
  f.key.chars ++ ':' :: (f.value.chars ++ noteChars f.note)

def entry (f : Field) : Entry :=
  let start := byteSize f.key.chars + 2
  ⟨⟨0, byteSize f.key.chars⟩,
    f.value.written?.map (fun written => ⟨start, start + byteSize written⟩),
    byteSize (trimEnd f.chars)⟩

def pair (f : Field) (e : Entry) : Pair :=
  ⟨⟨f.key.chars, e.key⟩, e.value.map (fun s => ⟨f.value.text, s⟩)⟩

end Field

namespace Row

def chars : Row → List Char
  | blank n => List.replicate n ' '
  | comment n note => List.replicate n ' ' ++ '#' :: note.text
  | field f => f.chars

def field? : Row → Option Field
  | field f => some f
  | _ => none

end Row

def joined (newline : List Char) : List Row → List Char
  | [] => []
  | r::rs => r.chars ++ (if rs.isEmpty then [] else newline ++ joined newline rs)

def placed (newline : List Char) : Nat → List Row → List (Field × Entry)
  | _, [] => []
  | start, r::rs =>
    r.field?.toList.map (fun f => (f, f.entry.shift start)) ++
      placed newline (start + byteSize (r.chars ++ newline)) rs

end Sheet

/-- A sheet with at least one field. Its last line may be ended like the others. -/
structure Sheet where
  rows : List Sheet.Row
  newline : Page.Newline
  ended : Bool
  hasField : rows.any (·.field?.isSome) = true

namespace Sheet

open Text Page

def text (s : Sheet) : List Char :=
  joined s.newline.chars s.rows ++ if s.ended then s.newline.chars else []

def fields (s : Sheet) : List Field :=
  s.rows.filterMap Row.field?

/-- The pairs of the sheet, where they are written. -/
def pairs (s : Sheet) : List Pair :=
  (placed s.newline.chars 0 s.rows).map (fun p => p.1.pair p.2)

section Plain

theorem isPhrase_cons {c : Char} {cs : List Char} (h : isPhrase (c::cs) = true) :
    (isValueChar c = true ∧ (cs = [] ∨ isPhrase cs = true)) ∨ (c = ' ' ∧ isPhrase cs = true) := by
  cases cs with
  | nil => exact Or.inl ⟨h, Or.inl rfl⟩
  | cons d rest =>
    simp only [isPhrase, Bool.and_eq_true, Bool.or_eq_true, beq_iff_eq] at h
    obtain ⟨hc | ⟨rfl, -⟩, hrest⟩ := h
    · exact Or.inl ⟨hc, Or.inr hrest⟩
    · exact Or.inr ⟨rfl, hrest⟩

theorem isPhrase_words {cs : List Char} (h : isPhrase cs = true) :
    cs.all (fun c => Page.isWord c || c == ' ') = true ∧ ∀ c ∈ cs.getLast?, Page.isWord c = true := by
  induction cs with
  | nil => cases h
  | cons c cs ih =>
    rcases isPhrase_cons h with ⟨hc, rfl | hcs⟩ | ⟨rfl, hcs⟩
    · have hword : Page.isWord c = true := by rw [Page.isWord, hc, Bool.true_or]
      refine ⟨by simp [hword], ?_⟩
      intro d hd
      obtain rfl := Option.some.inj hd
      exact hword
    all_goals
      obtain ⟨hall, hlast⟩ := ih hcs
      obtain ⟨d, ds, rfl⟩ := List.exists_cons_of_ne_nil (l := cs) (by rintro rfl; cases hcs)
      refine ⟨?_, by simpa using hlast⟩
      rw [List.all_cons, hall]
    · rw [Page.isWord, hc]
      rfl
    · rfl

theorem plainLine_of_isPlain {text : List Char} (h : isPlain text = true) : PlainLine text := by
  cases text with
  | nil => cases h
  | cons c cs =>
    obtain ⟨halpha, hphrase⟩ := Bool.and_eq_true_iff.mp h
    obtain ⟨hall, hlast⟩ := isPhrase_words hphrase
    have hword : Page.isWord c = true := by simp [Page.isWord, isValueChar, Char.isAlphanum, halpha]
    exact PlainLine.of_words (opensPlain_word hword (ne_of_eq halpha rfl) (ne_of_eq halpha rfl) cs)
      hall hlast

theorem plainValue_of_isPlain {text : List Char} (h : isPlain text = true) :
    Decode.plainValue? text = some (wordValue text) := by
  cases text with
  | nil => cases h
  | cons c cs =>
    obtain ⟨halpha, -⟩ := Bool.and_eq_true_iff.mp h
    apply plainValue_keyStart
    rw [isKeyStart, halpha, Bool.true_or, Bool.true_or]

end Plain

section Quoted

theorem doubled_graphic {cs : List Char} (h : cs.all isGraphic = true) :
    (doubled cs).all isGraphic = true := by
  induction cs with
  | nil => rfl
  | cons c cs ih =>
    rw [List.all_cons, Bool.and_eq_true] at h
    rw [doubled]
    split
    · rw [List.all_cons, List.all_cons, ih h.2]
      rfl
    · rw [List.all_cons, h.1, ih h.2]
      rfl

/-- Quotes are undoubled and white space is kept up to the quote that closes. -/
theorem go_doubled {m : Mark} {acc text : List Char} {gap : Gap}
    (h : text.all isGraphic = true) (hgap : gap.broken = false) (hm : 0 < m.column) :
    ∃ m', Quoted.go .single m acc gap .text (doubled text ++ ['\x27']) =
      some (acc.reverse ++ (gap.text ++ text), ⟨[], m'⟩) := by
  induction text generalizing m acc gap with
  | nil =>
    refine ⟨m.next, ?_⟩
    rw [doubled, List.nil_append, Quoted.go_text (by decide)]
    have hcolumn : (m.column == 0) = false := beq_eq_false_iff_ne.mpr (Nat.ne_of_gt hm)
    simp [isBreak, nextLine, lineSeparator, paragraphSeparator, isGap, hcolumn, Quoted.Doubles,
      Quoted.Quote.char]
  | cons c text ih =>
    rw [List.all_cons, Bool.and_eq_true] at h
    have hreturn : c ≠ '\r' := ne_of_eq h.1 rfl
    have hbreak := isBreak_of_isGraphic h.1
    have hcolumn : (m.column == 0) = false := beq_eq_false_iff_ne.mpr (Nat.ne_of_gt hm)
    have hnext : 0 < m.next.column := Nat.succ_pos _
    rw [doubled]
    by_cases hquote : c = '\x27'
    · subst hquote
      obtain ⟨m', hgo⟩ := @ih m.next.next ('\x27' :: (gap.text.reverse ++ acc)) Gap.none h.2 rfl
        (Nat.succ_pos _)
      refine ⟨m', ?_⟩
      rw [if_pos rfl, List.cons_append, List.cons_append, Quoted.go_text hreturn, hbreak, hcolumn]
      simp only [isGap, Char.reduceBEq, Bool.or_false, Bool.false_eq_true, if_false, if_true,
        Bool.false_and, Quoted.Quote.char, Quoted.Doubles, List.head?_cons, List.tail_cons,
        and_self, hgo]
      simp [Gap.none, Gap.text]
    · rw [if_neg hquote, List.cons_append, Quoted.go_text hreturn, hbreak, hcolumn]
      by_cases hspace : c = ' '
      · subst hspace
        have hbroken : (gap.addBlank ' ').broken = false := by
          rw [Gap.addBlank, hgap]
          rfl
        obtain ⟨m', hgo⟩ := @ih m.next acc (gap.addBlank ' ') h.2 hbroken hnext
        refine ⟨m', ?_⟩
        rw [if_neg Bool.false_ne_true, if_pos (by decide), hgo]
        simp [Gap.addBlank, Gap.text, hgap]
      · obtain ⟨m', hgo⟩ := @ih m.next (c :: (gap.text.reverse ++ acc)) Gap.none h.2 rfl hnext
        have htab : c ≠ '\t' := ne_of_eq h.1 rfl
        refine ⟨m', ?_⟩
        simp only [isGap, hspace, htab, hquote, Quoted.Quote.char, hgo, beq_iff_eq, or_self,
          Bool.or_eq_true, Bool.false_eq_true, Bool.false_and, reduceCtorEq, false_and, if_false]
        simp [Gap.none, Gap.text]

theorem spelled_quoted {text : List Char} (h : text.all isGraphic = true) :
    spelled? ('\x27' :: (doubled text ++ ['\x27'])) = some (text, .singleQuoted) := by
  obtain ⟨m, hgo⟩ := @go_doubled Mark.start.next [] text Gap.none h rfl (Nat.succ_pos _)
  have hscan : Quoted.scan? .single (Cursor.start ('\x27' :: (doubled text ++ ['\x27']))) =
      some (text, ⟨[], m⟩) := hgo
  rw [spelled?]
  simp [quote?, hscan, Quoted.Quote.style]

theorem isInline_quoted {text : List Char} (h : text.all isGraphic = true) :
    ('\x27' :: (doubled text ++ ['\x27'])).all isInline = true := by
  apply all_isInline
  rw [List.all_cons, List.all_append, doubled_graphic h]
  rfl

theorem getLast?_quoted (text : List Char) :
    ('\x27' :: (doubled text ++ ['\x27'])).getLast? = some '\x27' := by
  rw [← List.cons_append, List.getLast?_concat]

def quotedScalar (text : List Char) (h : text.all isGraphic = true) : Scalar where
  first := '\x27' :: (doubled text ++ ['\x27'])
  later := []
  text := text
  style := .singleQuoted
  value := .string text
  spelled := by
    rw [glued, List.flatMap_nil, List.append_nil]
    exact spelled_quoted h
  resolved := rfl
  inline := isInline_quoted h
  hanging := all_goesOn_nil
  ends := by
    rw [glued, List.flatMap_nil, List.append_nil, getLast?_quoted]
    rfl

end Quoted

section Pages

def Value.scalar? : Value → Option Scalar
  | missing => none
  | plain _ h => some ((plainLine_of_isPlain h).scalar (plainValue_of_isPlain h))
  | quoted text h => some (quotedScalar text h)

theorem Value.written_scalar (v : Value) (newline : List Char) :
    v.scalar?.map (Scalar.written newline) = v.written? := by
  cases v with
  | missing => rfl
  | plain text h => exact congrArg some (Scalar.written_line rfl newline)
  | quoted text h => exact congrArg some (Scalar.written_line rfl newline)

theorem Value.later_scalar {v : Value} {s : Scalar} (h : v.scalar? = some s) : s.later = [] := by
  cases v with
  | missing => cases h
  | plain text _ =>
    obtain rfl := Option.some.inj h
    rfl
  | quoted text _ =>
    obtain rfl := Option.some.inj h
    rfl

theorem Value.valueText_scalar {v : Value} {s : Scalar} (h : v.scalar? = some s) :
    Outline.valueText s.first s.value = v.text := by
  cases v with
  | missing => cases h
  | plain text hplain =>
    obtain rfl := Option.some.inj h
    exact valueText_plain (plainValue_of_isPlain hplain)
  | quoted text _ =>
    obtain rfl := Option.some.inj h
    rfl

def Field.page (f : Field) : Page.Field where
  key := f.key
  gap := 0
  value := f.value.scalar?
  spaces := 0
  note := f.note
  closed := by
    intro h
    cases hs : f.value.scalar? with
    | none => simp [hs] at h
    | some s => simp [hs, Value.later_scalar hs] at h

theorem Field.page_lines (f : Field) : f.page.lines = [f.chars] := by
  have hwritten := f.value.written_scalar []
  cases hvalue : f.value.scalar? with
  | none =>
    rw [hvalue, Option.map_none] at hwritten
    simp [Page.Field.lines, page, hvalue, chars, Value.chars, ← hwritten, Page.Field.tail]
  | some s =>
    rw [hvalue, Option.map_some, Scalar.written_line (Value.later_scalar hvalue)] at hwritten
    simp [Page.Field.lines, page, hvalue, chars, Value.chars, ← hwritten, Page.Field.tail,
      Page.Field.lead, Value.later_scalar hvalue]

theorem Field.page_entry (f : Field) (newline : List Char) : f.page.entry newline = f.entry := by
  have hchars : f.page.chars newline = f.chars := by
    rw [Page.Field.chars, page_lines, glued, List.flatMap_nil, List.append_nil]
  have hlead : byteSize f.page.lead = byteSize f.key.chars + 2 := by
    rw [byteSize_lead]
    rfl
  rw [Page.Field.entry, hchars, hlead, entry, ← f.value.written_scalar newline, Option.map_map]
  rfl

theorem Field.page_pair (f : Field) (newline : List Char) (n : Nat) :
    f.page.pair newline (f.entry.shift n) = f.pair (f.entry.shift n) := by
  have hwritten := f.value.written_scalar newline
  cases hvalue : f.value.scalar? with
  | none =>
    rw [hvalue, Option.map_none] at hwritten
    simp [Page.Field.pair, page, hvalue, pair, Entry.shift, entry, ← hwritten]
  | some s =>
    have hline := Scalar.written_line (Value.later_scalar hvalue) newline
    rw [hvalue, Option.map_some] at hwritten
    simp [Page.Field.pair, page, hvalue, pair, Entry.shift, entry, ← hwritten, hline,
      Value.valueText_scalar hvalue]

def Row.page : Row → Page.Row
  | blank n => .fill n none
  | comment n note => .fill n (some note)
  | field f => .field f.page

theorem Row.page_lines (r : Row) : r.page.lines = [r.chars] := by
  cases r with
  | blank n => exact congrArg (fun l => [l]) (List.append_nil _)
  | comment n note => rfl
  | field f => exact f.page_lines

theorem Row.page_field (r : Row) : r.page.field? = r.field?.map Field.page := by
  cases r <;> rfl

theorem joined_page (newline : List Char) (rows : List Row) :
    Page.joined newline (rows.map Row.page) = joined newline rows := by
  induction rows with
  | nil => rfl
  | cons r rows ih =>
    rw [Page.joined] at ih ⊢
    rw [joined, ← ih, List.map_cons, List.flatMap_cons, r.page_lines]
    cases rows with
    | nil => rfl
    | cons r' rows =>
      rw [List.map_cons, List.flatMap_cons, r'.page_lines]
      simp [glued]

theorem placed_page (newline : List Char) (start : Nat) (rows : List Row) :
    Page.placed newline start (rows.map Row.page) =
      (placed newline start rows).map fun p => (p.1.page, p.2) := by
  induction rows generalizing start with
  | nil => rfl
  | cons r rows ih =>
    have hchars : glued newline r.page.lines = r.chars := by
      rw [r.page_lines, glued, List.flatMap_nil, List.append_nil]
    rw [List.map_cons, Page.placed, placed, hchars, ih, List.map_append, r.page_field]
    cases r.field? with
    | none => rfl
    | some f => simp [f.page_entry newline]

/-- A newline at the very end leaves one more line, which is empty. -/
def allRows (s : Sheet) : List Row :=
  s.rows ++ if s.ended then [.blank 0] else []

theorem joined_ended (newline : List Char) {rows : List Row} (h : rows ≠ []) :
    joined newline (rows ++ [.blank 0]) = joined newline rows ++ newline := by
  induction rows with
  | nil => exact absurd rfl h
  | cons r rows ih =>
    cases rows with
    | nil => simp [joined, Row.chars]
    | cons r' rows =>
      have hrest := ih (List.cons_ne_nil r' rows)
      rw [List.cons_append, joined, hrest]
      simp [joined]

theorem placed_ended (newline : List Char) (start : Nat) (rows : List Row) :
    placed newline start (rows ++ [.blank 0]) = placed newline start rows := by
  induction rows generalizing start with
  | nil => rfl
  | cons r rows ih => rw [List.cons_append, placed, placed, ih]

theorem joined_allRows (s : Sheet) : joined s.newline.chars s.allRows = s.text := by
  have hrows : s.rows ≠ [] := by
    intro h
    have hfield := s.hasField
    rw [h] at hfield
    cases hfield
  rw [text, allRows]
  cases s.ended with
  | false => simp
  | true => exact joined_ended s.newline.chars hrows

theorem placed_allRows (s : Sheet) :
    placed s.newline.chars 0 s.allRows = placed s.newline.chars 0 s.rows := by
  rw [allRows]
  cases s.ended with
  | false => simp
  | true => exact placed_ended s.newline.chars 0 s.rows

def page (s : Sheet) : Page where
  rows := s.allRows.map Row.page
  newline := s.newline
  hasField := by
    obtain ⟨r, hr, hfield⟩ := List.any_eq_true.mp s.hasField
    rw [List.any_map, List.any_eq_true]
    refine ⟨r, List.mem_append_left _ hr, ?_⟩
    simpa [r.page_field] using hfield

theorem page_text (s : Sheet) : s.page.text = s.text :=
  (joined_page s.newline.chars s.allRows).trans s.joined_allRows

theorem placed_sheet (s : Sheet) : Page.placed s.newline.chars 0 s.page.rows =
    (placed s.newline.chars 0 s.rows).map fun p => (p.1.page, p.2) := by
  rw [← placed_allRows]
  exact placed_page s.newline.chars 0 s.allRows

theorem mem_placed {newline : List Char} {start : Nat} {rows : List Row} {p : Field × Entry}
    (h : p ∈ placed newline start rows) : ∃ n, p.2 = p.1.entry.shift n := by
  induction rows generalizing start with
  | nil => cases h
  | cons r rows ih =>
    rcases List.mem_append.mp h with h | h
    · obtain ⟨f, -, rfl⟩ := List.mem_map.mp h
      exact ⟨start, rfl⟩
    · exact ih h

theorem page_pairs (s : Sheet) : s.page.pairs = s.pairs := by
  rw [Page.pairs, pairs]
  change (Page.placed s.newline.chars 0 s.page.rows).map _ = _
  rw [placed_sheet, List.map_map]
  apply List.map_congr_left
  intro p hp
  obtain ⟨n, hn⟩ := mem_placed hp
  simp only [Function.comp_apply, hn]
  exact p.1.page_pair s.newline.chars n

theorem fields_placed (newline : List Char) (start : Nat) (rows : List Row) :
    (placed newline start rows).map Prod.fst = rows.filterMap Row.field? := by
  induction rows generalizing start with
  | nil => rfl
  | cons r rows ih =>
    rw [placed, List.map_append, ih]
    cases r <;> rfl

end Pages

/-- A sheet is read as the pairs of its fields, in order. Each has the key as
written and the text of the value, and spans of what is written for them. -/
theorem read_text (s : Sheet) :
    Outline.read s.text = .mapping s.pairs ∧
      s.pairs.map (fun p => (p.key.text, p.value.map Item.text)) =
        s.fields.map (fun f => (f.key.chars, f.value.written?.map fun _ => f.value.text)) ∧
      s.pairs.map (fun p => (slice s.text p.key.span, p.value.map fun v => slice s.text v.span)) =
        s.fields.map (fun f => (f.key.chars, f.value.written?)) := by
  have hread := read_page s.page
  rw [page_text, page_pairs] at hread
  have hfields : s.fields = (placed s.newline.chars 0 s.rows).map Prod.fst :=
    (fields_placed s.newline.chars 0 s.rows).symm
  refine ⟨hread, ?_, ?_⟩
  · rw [hfields, pairs, List.map_map, List.map_map]
    apply List.map_congr_left
    intro p hp
    obtain ⟨n, hn⟩ := mem_placed hp
    simp [Field.pair, hn, Entry.shift, Field.entry, Function.comp_def]
  · rw [hfields, pairs, List.map_map, List.map_map]
    apply List.map_congr_left
    intro p hp
    have hpage : (p.1.page, p.2) ∈ Page.placed s.newline.chars 0 s.page.rows := by
      rw [placed_sheet]
      exact List.mem_map_of_mem hp
    have hwritten := written_pairs s.page _ hpage
    rw [page_text] at hwritten
    have hvalue := hwritten.value.trans (p.1.value.written_scalar s.newline.chars)
    simp only [Function.comp_apply, Field.pair, hwritten.key, ← hvalue, Option.map_map]
    rfl

example :
    let key : Key := ⟨['a'], rfl, by decide⟩
    let s : Sheet :=
      ⟨[.field ⟨key, .quoted "x'y".toList rfl, some ⟨" c".toList, rfl⟩⟩, .blank 0,
        .field ⟨key, .missing, none⟩], .crlf, false, rfl⟩
    s.text = "a: 'x''y' # c\r\n\r\na:".toList ∧
      s.pairs = [⟨⟨['a'], ⟨0, 1⟩⟩, some ⟨"x'y".toList, ⟨3, 9⟩⟩⟩, ⟨⟨['a'], ⟨17, 18⟩⟩, none⟩] := by
  decide

end SlideDirectives.Yaml.Sheet
