import SlideDirectives.Proofs.Yaml.EntryScan
import SlideDirectives.Proofs.Yaml.Page.Inline

/-!
# The entries of a page

The line of a key opens the entry of its field, and the further lines of the
value extend it up to the end of the value. All other lines leave the entries
above them as they are.
-/

set_option autoImplicit false

namespace SlideDirectives.Yaml.Page

open Text Entry

def scanLines (newline : List Char) : Nat → List Marked → List (List Char) → List Marked
  | _, found, [] => found
  | start, found, l::ls =>
    scanLines newline (start + byteSize (l ++ newline)) (Marked.advance start found l) ls

theorem scanLines_append (newline : List Char) (start : Nat) (found : List Marked)
    (ls ls' : List (List Char)) :
    scanLines newline start found (ls ++ ls') =
      scanLines newline (start + byteSize (ls.flatMap (· ++ newline)))
        (scanLines newline start found ls) ls' := by
  induction ls generalizing start found with
  | nil => rfl
  | cons l ls ih =>
    rw [List.cons_append, scanLines, ih, List.flatMap_cons, byteSize_append (l ++ newline),
      Nat.add_assoc]
    rfl

theorem glued_cons_cons (newline l l' : List Char) (ls : List (List Char)) :
    glued newline (l::l'::ls) = l ++ (newline ++ glued newline (l'::ls)) := by
  simp [glued]

theorem glued_newline (newline l : List Char) (ls : List (List Char)) :
    glued newline (l::ls) ++ newline = (l::ls).flatMap (· ++ newline) := by
  induction ls generalizing l with
  | nil => simp [glued]
  | cons l' ls ih =>
    rw [glued_cons_cons, List.append_assoc, List.append_assoc, ih]
    simp

section Cut

def Newline.lead : Newline → List Char
  | lf => []
  | crlf => ['\r']

theorem Newline.chars_eq (n : Newline) : n.chars = n.lead ++ ['\n'] := by
  cases n <;> rfl

theorem Newline.lead_return (n : Newline) : ∀ c ∈ n.lead, (c == '\r') = true := by
  cases n with
  | lf => simp [lead]
  | crlf => simp [lead]

variable {newline : Newline} {l : List Char}

theorem newline_not_mem (h : l.all isInline = true) (newline : Newline) :
    '\n' ∉ l ++ newline.lead := by
  intro hmem
  rcases List.mem_append.mp hmem with hmem | hmem
  · exact isInline_ne (List.all_eq_true.mp h _ hmem) (by decide) rfl
  · cases newline with
    | lf => cases hmem
    | crlf => simp [Newline.lead] at hmem

theorem scanned_inline (h : l.all isInline = true) {ending : List Char}
    (hending : ∀ c ∈ ending, (c == '\r') = true) (ended : Bool) :
    scanned ⟨l ++ ending, ended⟩ = l := by
  rw [scanned, dropEndWhile_append_all hending]
  apply dropEndWhile_eq_self
  intro c hc
  exact beq_eq_false_iff_ne.mpr (isInline_ne (List.all_eq_true.mp h c hc) (by decide))

theorem scan_glued {ls : List (List Char)} (h : ∀ l ∈ ls, l.all isInline = true) (start : Nat)
    (found : List Marked) :
    Marked.scan start found (lines (glued newline.chars ls)) =
      scanLines newline.chars start found ls := by
  induction ls generalizing start found with
  | nil => rfl
  | cons l ls ih =>
    have hl := h l List.mem_cons_self
    have hrest := ih fun l' hl' => h l' (List.mem_cons_of_mem l hl')
    cases ls with
    | nil =>
      have hglued : glued newline.chars [l] = l := List.append_nil l
      rw [hglued]
      by_cases hempty : l = []
      · rw [hempty]
        rfl
      · have hmem := newline_not_mem hl .lf
        rw [Newline.lead, List.append_nil] at hmem
        have hscanned : scanned ⟨l ++ [], false⟩ = l := scanned_inline hl (by simp) false
        rw [List.append_nil] at hscanned
        rw [lines_unended hmem hempty]
        simp only [Marked.scan, scanLines, hscanned]
    | cons l' ls =>
      have hsize : (Line.mk (l ++ newline.lead) true).size = byteSize (l ++ newline.chars) := by
        rw [newline.chars_eq, Line.size]
        simp only [byteSize_append, Bool.toNat_true, show byteSize ['\n'] = 1 from rfl]
        omega
      have hcut : glued newline.chars (l::l'::ls) =
          (l ++ newline.lead) ++ '\n' :: glued newline.chars (l'::ls) := by
        rw [glued_cons_cons, newline.chars_eq]
        simp
      rw [hcut, lines_newline (newline_not_mem hl newline), Marked.scan,
        scanned_inline hl newline.lead_return, hsize, hrest]
      rfl

end Cut

section Later

variable {newline : List Char} {m : Marked} {v : Span} {found : List Marked}

def upTo (stop : Nat) (v : Span) (m : Marked) : Marked :=
  ⟨⟨m.entry.key, some ⟨v.start, stop⟩, stop⟩, m.block⟩

theorem extend_later {l : List Char} (hv : m.entry.value = some v)
    (hhash : (trimStart l).head?.all (· != '#') = true) (start : Nat) :
    m.extend l start = upTo (start + byteSize (trimEnd l)) v m := by
  have hwords : ((trimStart l).head? != some '#') = true := by
    cases hhead : (trimStart l).head? with
    | none => rfl
    | some c =>
      rw [hhead] at hhash
      simpa using hhash
  rw [Marked.extend, hwords, Bool.or_true, if_pos rfl, grow, hv]
  rfl

theorem advance_later {l : List Char} (h : goesOn l = true) (hv : m.entry.value = some v)
    (start : Nat) (found : List Marked) :
    (trim l = [] ∧ Marked.advance start (m::found) l = m::found) ∨
      Marked.advance start (m::found) l =
        upTo (start + byteSize (trimEnd l)) v m :: found := by
  obtain ⟨-, hl, hhash⟩ := goesOn_cases h
  by_cases hblank : trim l = []
  · refine Or.inl ⟨hblank, ?_⟩
    rw [Marked.advance, Role.ofLine, hblank]
    rfl
  · right
    have hrole : Role.ofLine l = .continues := by
      rw [Role.ofLine, if_neg (by simpa using hblank)]
      rcases hl with rfl | ⟨cs, rfl⟩
      · exact absurd rfl hblank
      · rfl
    rw [Marked.advance, hrole]
    exact congrArg (· :: found) (extend_later hv hhash start)

/-- The lines of a value extend its entry up to the end of the last one. -/
theorem scanLines_later {ls : List (List Char)} (h : ls.all goesOn = true) (hne : ls ≠ [])
    (hlast : ∀ l ∈ ls.getLast?, ∃ c ∈ l.getLast?, isBlank c = false)
    (hv : m.entry.value = some v) (start : Nat) :
    scanLines newline start (m::found) ls =
      upTo (start + byteSize (glued newline ls)) v m :: found := by
  induction ls generalizing m v start with
  | nil => exact absurd rfl hne
  | cons l ls ih =>
    rw [List.all_cons, Bool.and_eq_true] at h
    rw [scanLines]
    cases ls with
    | nil =>
      obtain ⟨c, hc, hblank⟩ := hlast l rfl
      have htrim : trimEnd l = l := by
        apply trimEnd_last
        intro d hd
        obtain rfl := Option.some.inj (hc.symm.trans hd)
        exact hblank
      have hsome : trim l ≠ [] := by
        intro hnil
        have hmem := mem_trim (List.mem_of_getLast? hc) hblank
        rw [hnil] at hmem
        cases hmem
      rcases advance_later h.1 hv start found with ⟨hnil, -⟩ | hadvance
      · exact absurd hnil hsome
      · rw [hadvance, htrim, scanLines, glued, List.flatMap_nil, List.append_nil]
    | cons l' ls =>
      have hlast' : ∀ k ∈ (l'::ls).getLast?, ∃ c ∈ k.getLast?, isBlank c = false :=
        fun k hk => hlast k (by simpa using hk)
      have hrest : ∀ {m : Marked}, m.entry.value.map Span.start = some v.start →
          scanLines newline (start + byteSize (l ++ newline)) (m::found) (l'::ls) =
            upTo (start + byteSize (glued newline (l::l'::ls))) v m :: found := by
        intro m hm
        obtain ⟨w, hw, hstart⟩ := Option.map_eq_some_iff.mp hm
        rw [ih h.2 (List.cons_ne_nil l' ls) hlast' hw, glued_cons_cons]
        simp only [byteSize_append, upTo, hstart, Nat.add_assoc]
      rcases advance_later h.1 hv start found with ⟨-, hadvance⟩ | hadvance
      · rw [hadvance]
        exact hrest (by rw [hv]; rfl)
      · rw [hadvance]
        exact hrest rfl

end Later

section Fields

variable {newline : List Char} {found : List Marked}

theorem Scalar.first_cons (s : Scalar) : ∃ c cs, s.first = c::cs ∧ isSpacing c = false ∧
    c ≠ '#' ∧ c ≠ '|' ∧ c ≠ '>' := by
  obtain ⟨c, cs, hraw, hspacing, hhash, hliteral, hfolded, -⟩ := s.spelled_written.head
  cases hfirst : s.first with
  | nil =>
    rw [Scalar.written, glued, hfirst, List.nil_append] at hraw
    cases hlater : s.later with
    | nil =>
      rw [hlater] at hraw
      cases hraw
    | cons l ls =>
      rw [hlater] at hraw
      obtain rfl : '\n' = c := (List.cons.inj hraw).1
      cases hspacing
  | cons d ds =>
    rw [Scalar.written, glued, hfirst] at hraw
    obtain rfl : d = c := (List.cons.inj hraw).1
    exact ⟨d, ds, rfl, hspacing, hhash, hliteral, hfolded⟩

theorem Scalar.later_last (s : Scalar) :
    ∀ l ∈ s.later.getLast?, ∃ c ∈ l.getLast?, isBlank c = false := by
  intro l hl
  obtain ⟨ls, hlater⟩ := List.getLast?_eq_some_iff.mp hl
  have hlast := s.last_written
  have hraw : s.written ['\n'] = (s.first ++ ls.flatMap (['\n'] ++ ·)) ++ '\n' :: l := by
    simp [Scalar.written, glued, hlater]
  rw [hraw] at hlast
  rcases List.eq_nil_or_concat l with rfl | ⟨before, c, rfl⟩
  · exact absurd (hlast '\n' (by simp)) (by decide)
  · have hend : (s.first ++ ls.flatMap (['\n'] ++ ·)) ++ '\n' :: before.concat c =
        (s.first ++ ls.flatMap (['\n'] ++ ·) ++ '\n' :: before) ++ [c] := by
      simp
    rw [hend] at hlast
    exact ⟨c, by simp, hlast c List.getLast?_concat⟩

theorem Scalar.written_concat (newline : List Char) (s : Scalar) :
    ∃ before c, s.written newline = before ++ [c] ∧ isBlank c = false := by
  rcases List.eq_nil_or_concat s.later with hlater | ⟨ls, l, hlater⟩
  · have hwritten := Scalar.written_line hlater
    have hlast := s.last_written
    rw [hwritten] at hlast ⊢
    obtain ⟨c, cs, hfirst, -⟩ := s.first_cons
    rcases List.eq_nil_or_concat s.first with hnil | ⟨before, d, hconcat⟩
    · rw [hnil] at hfirst
      cases hfirst
    · rw [List.concat_eq_append] at hconcat
      rw [hconcat] at hlast
      exact ⟨before, d, hconcat, hlast d List.getLast?_concat⟩
  · obtain ⟨c, hc, hblank⟩ := s.later_last l (by simp [hlater])
    obtain ⟨before, rfl⟩ := List.getLast?_eq_some_iff.mp hc
    refine ⟨s.first ++ (ls.flatMap (newline ++ ·) ++ (newline ++ before)), c, ?_, hblank⟩
    simp [Scalar.written, glued, hlater]

theorem role_key {c : Char} {cs : List Char} (h : isKeyStart c = true) {e : Entry}
    (he : ofLine? (c::cs) = some e) : Role.ofLine (c::cs) = .opens (marked (c::cs) e) := by
  have hword := isWord_of_isKeyStart h
  have htrim : (trim (c::cs)).isEmpty = false := isEmpty_trim List.mem_cons_self
    (isBlank_of_isWord hword)
  have hgap : (c::cs).head?.any isGap = false := isGap_of_isWord hword
  rw [Role.ofLine, htrim, hgap, isStructural_keyStart cs h, he]
  rfl

theorem advance_key (k : Key) {l rest : List Char} (hl : l = k.chars ++ rest) {e : Entry}
    (he : ofLine? l = some e) (start : Nat) :
    Marked.advance start found l = (marked l e).shift start :: found := by
  obtain ⟨c, cs, hcs, hstart, -⟩ := isKey_cons k.wellFormed
  rw [hcs, List.cons_append] at hl
  subst hl
  rw [Marked.advance, role_key hstart he]

theorem byteSize_lead (f : Field) :
    byteSize f.lead = byteSize f.key.chars + 1 + (f.gap + 1) := by
  rw [Field.lead, byteSize_append, byteSize, byteSize_spaces, show (':' : Char).utf8Size = 1 from rfl]
  omega

theorem ofLine?_none (f : Field) : ofLine? (f.key.chars ++ ':' :: f.tail) =
    some ⟨⟨0, byteSize f.key.chars⟩, none, byteSize (trimEnd (f.key.chars ++ ':' :: f.tail))⟩ := by
  rw [Field.tail]
  cases f.note with
  | none => exact ofLine?_key f.key (Or.inr rfl) (by simp [noteChars])
  | some n =>
    have htail : List.replicate f.spaces ' ' ++ noteChars (some n) =
        List.replicate (f.spaces + 1) ' ' ++ '#' :: n.text := by
      rw [List.replicate_succ', List.append_assoc]
      rfl
    rw [htail]
    exact ofLine?_key f.key (Or.inl (Nat.succ_pos _)) (by simp [isGap])

theorem ofLine?_some (f : Field) (s : Scalar) : ofLine? (f.lead ++ (s.first ++ f.tail)) =
    some ⟨⟨0, byteSize f.key.chars⟩,
      (inlineValue? (s.first ++ f.tail)).map (fun v =>
        ⟨byteSize f.lead, byteSize f.lead + byteSize v⟩),
      byteSize (trimEnd (f.lead ++ (s.first ++ f.tail)))⟩ := by
  obtain ⟨c, cs, hfirst, hspacing, -⟩ := s.first_cons
  have hgap : ∀ d ∈ (s.first ++ f.tail).head?, isGap d = false := by
    intro d hd
    rw [hfirst] at hd
    obtain rfl := Option.some.inj hd
    exact (Bool.or_eq_false_iff.mp hspacing).1
  have hline := ofLine?_key f.key (n := f.gap + 1) (Or.inl (Nat.succ_pos _)) hgap
  rw [byteSize_lead]
  simp only [Field.lead, List.append_assoc, List.cons_append]
  exact hline

theorem opensBlock_first (s : Scalar) (rest : List Char) : opensBlock (s.first ++ rest) = false := by
  obtain ⟨c, cs, hfirst, -, -, hliteral, hfolded⟩ := s.first_cons
  simp [opensBlock, hfirst, hliteral, hfolded]

theorem advance_first (f : Field) (s : Scalar) (start : Nat) :
    ∃ v, inlineValue? (s.first ++ f.tail) = some v ∧
      Marked.advance start found (f.lead ++ (s.first ++ f.tail)) =
        ⟨Entry.shift ⟨⟨0, byteSize f.key.chars⟩,
          some ⟨byteSize f.lead, byteSize f.lead + byteSize v⟩,
          byteSize (trimEnd (f.lead ++ (s.first ++ f.tail)))⟩ start, false⟩ :: found := by
  obtain ⟨c, cs, hfirst, -, hhash, -⟩ := s.first_cons
  obtain ⟨v, hinline⟩ : ∃ v, inlineValue? (s.first ++ f.tail) = some v := by
    rw [hfirst]
    exact inlineValue?_some hhash _
  have hline := ofLine?_some f s
  rw [hinline, Option.map_some] at hline
  have hlead : f.lead ++ (s.first ++ f.tail) =
      f.key.chars ++ ':' :: (List.replicate (f.gap + 1) ' ' ++ (s.first ++ f.tail)) := by
    simp [Field.lead]
  refine ⟨v, hinline, ?_⟩
  rw [advance_key f.key hlead hline start, marked, Option.any_some, dropBytes_byteSize_append,
    opensBlock_first]
  rfl

theorem inlineValue?_first (f : Field) {s : Scalar} (h : s.later = []) :
    inlineValue? (s.first ++ f.tail) = some s.first := by
  have hwritten := Scalar.written_line h ['\n']
  have hspelled := s.spelled_written
  have hlast := s.last_written
  rw [hwritten] at hspelled hlast
  exact inlineValue?_spelled hspelled s.inline hlast f.spaces f.note

theorem scanLines_field (f : Field) (start : Nat) :
    scanLines newline start found f.lines =
      ⟨(f.entry newline).shift start, false⟩ :: found := by
  cases hvalue : f.value with
  | none =>
    have hchars : f.chars newline = f.key.chars ++ ':' :: f.tail := by
      simp [Field.chars, Field.lines, hvalue, glued]
    simp only [Field.lines, hvalue, scanLines, advance_key f.key rfl (ofLine?_none f), Field.entry,
      hchars]
    rfl
  | some s =>
    obtain ⟨v, hinline, hadvance⟩ := @advance_first found f s start
    simp only [Field.lines, hvalue, scanLines, hadvance, Field.entry, Option.map_some]
    by_cases hlater : s.later = []
    · obtain rfl : s.first = v := Option.some.inj ((inlineValue?_first f hlater).symm.trans hinline)
      have hwritten := Scalar.written_line hlater newline
      have hchars : f.chars newline = f.lead ++ (s.first ++ f.tail) := by
        simp [Field.chars, Field.lines, hvalue, glued, hlater]
      rw [hlater, scanLines, hwritten, hchars]
    · have htail := f.tail_later hvalue hlater
      obtain ⟨l, ls, hls⟩ := List.exists_cons_of_ne_nil hlater
      have hwritten : s.written newline = s.first ++ (newline ++ glued newline s.later) := by
        rw [Scalar.written, hls, glued_cons_cons]
      have hchars : f.chars newline = f.lead ++ s.written newline := by
        simp [Field.chars, Field.lines, hvalue, Scalar.written, glued, htail]
      have htrim : trimEnd (f.lead ++ s.written newline) = f.lead ++ s.written newline := by
        obtain ⟨before, c, hconcat, hblank⟩ := s.written_concat newline
        rw [hconcat, ← List.append_assoc]
        exact dropEndWhile_concat _ hblank
      rw [scanLines_later s.hanging hlater s.later_last rfl, hchars, htrim, hwritten, htail,
        List.append_nil]
      simp only [upTo, Entry.shift, Option.map_some, Span.shift, byteSize_append, List.cons.injEq,
        Marked.mk.injEq, Entry.mk.injEq, Option.some.injEq, Span.mk.injEq, and_true, true_and]
      omega

end Fields

section Rows

variable {newline : List Char} {found : List Marked}

theorem advance_fill (n : Nat) (note : Option Note) (start : Nat)
    (hfound : ∀ m ∈ found, m.block = false) :
    Marked.advance start found (List.replicate n ' ' ++ hashChars note) = found := by
  cases note with
  | none =>
    rw [hashChars, List.append_nil, Marked.advance, Role.ofLine, trim_blank]
    rfl
  | some comment =>
    have htrim : (trim (List.replicate n ' ' ++ hashChars (some comment))).isEmpty = false :=
      isEmpty_trim (List.mem_append_right _ List.mem_cons_self) (by decide)
    have hwords : (trimStart (List.replicate n ' ' ++ hashChars (some comment))).head? =
        some '#' := by
      rw [trimStart_spaces]
      rfl
    rw [Marked.advance, Role.ofLine, htrim, if_neg Bool.false_ne_true]
    cases n with
    | zero => rfl
    | succ n =>
      cases found with
      | nil => rfl
      | cons m ms =>
        have hextend : m.extend (List.replicate (n + 1) ' ' ++ hashChars (some comment)) start = m := by
          rw [Marked.extend, hfound m List.mem_cons_self, hwords]
          rfl
        exact congrArg (· :: ms) hextend

theorem scanLines_row (r : Row) (start : Nat) (hfound : ∀ m ∈ found, m.block = false) :
    scanLines newline start found r.lines =
      r.field?.toList.map (fun f => ⟨(f.entry newline).shift start, false⟩) ++ found := by
  cases r with
  | fill n note =>
    simp only [Row.lines, scanLines, advance_fill n note start hfound]
    rfl
  | field f => exact scanLines_field f start

/-- Where the fields are placed, the scan finds their entries. -/
theorem scanLines_rows (rows : List Row) (start : Nat) (hfound : ∀ m ∈ found, m.block = false) :
    scanLines newline start found (rows.flatMap Row.lines) =
      ((placed newline start rows).map (fun x => (⟨x.2, false⟩ : Marked))).reverse ++ found := by
  induction rows generalizing start found with
  | nil => rfl
  | cons r rows ih =>
    obtain ⟨l, ls, hlines⟩ := r.lines_cons
    have hsize : byteSize (r.lines.flatMap (· ++ newline)) =
        byteSize (glued newline r.lines ++ newline) := by
      rw [hlines, glued_newline]
    have hrow : ∀ m ∈ r.field?.toList.map
        (fun f => (⟨(f.entry newline).shift start, false⟩ : Marked)) ++ found, m.block = false := by
      intro m hm
      rcases List.mem_append.mp hm with hm | hm
      · obtain ⟨f, -, rfl⟩ := List.mem_map.mp hm
        rfl
      · exact hfound m hm
    rw [List.flatMap_cons, scanLines_append, scanLines_row r start hfound, hsize, ih _ hrow, placed]
    cases r <;> simp [Row.field?]

theorem entries_joined (newline : Newline) (rows : List Row) :
    entries (joined newline.chars rows) = (placed newline.chars 0 rows).map Prod.snd := by
  rw [entries_eq_scan, joined, scan_glued (rows_inline rows), scanLines_rows rows 0 (by simp)]
  simp

end Rows

end SlideDirectives.Yaml.Page
