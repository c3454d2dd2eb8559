import SlideDirectives.Proofs.Text.Overwrite
import SlideDirectives.Proofs.Yaml.EntryScan

/-!
# Renaming a key

A line on which a plain key is overwritten by another of the same size opens
the same entry. So the text has the same entries, and all that is written for
the other ones stays in its place.
-/

set_option autoImplicit false

namespace SlideDirectives.Yaml.Entry

open Text

/-- A plain key that is read as one whatever white space the colon has before it. -/
def isName (name : List Char) : Bool :=
  name.head?.any (fun c => !isGap c && !isQuote c) && !isStructural name && !opensOther name &&
    (plainKey? name).isNone && trimEnd name == name && !name.contains '\n'

/-- What makes a key a name. -/
structure Named (name : List Char) : Prop where
  gap : name.head?.any isGap = false
  quote : name.head?.any isQuote = false
  structural : isStructural name = false
  other : opensOther name = false
  colon : plainKey? name = none
  trimmed : trimEnd name = name
  newline : '\n' ∉ name

theorem named_of_isName {name : List Char} (h : isName name = true) : Named name := by
  cases name with
  | nil => cases h
  | cons c cs =>
    simp only [isName, Bool.and_eq_true, Bool.not_eq_true', beq_iff_eq, List.head?_cons,
      Option.any_some, Option.isNone_iff_eq_none] at h
    obtain ⟨⟨⟨⟨⟨⟨hgap, hquote⟩, hstructural⟩, hother⟩, hcolon⟩, htrimmed⟩, hnewline⟩ := h
    refine ⟨hgap, hquote, hstructural, hother, hcolon, htrimmed, ?_⟩
    intro hmem
    rw [List.contains_iff_mem.mpr hmem] at hnewline
    cases hnewline

theorem Named.ne_nil {name : List Char} (h : Named name) : name ≠ [] := by
  rintro rfl
  exact absurd h.other (by decide)

section Line

variable {key name blanks after : List Char}

theorem plainKey?_append {xs : List Char} (h : plainKey? xs = none) (ys : List Char) :
    plainKey? (xs ++ ys) = (plainKey? ys).map (xs ++ ·) := by
  induction xs with
  | nil => simp
  | cons c cs ih =>
    rw [plainKey?] at h
    split at h
    · cases h
    · rename_i hc
      have hcs : ¬(c = ':' ∧ ((cs ++ ys).head?.all isGap) = true) := by
        rintro ⟨hcolon, hall⟩
        cases cs with
        | nil => exact hc ⟨hcolon, rfl⟩
        | cons d ds => exact hc ⟨hcolon, hall⟩
      rw [List.cons_append, plainKey?, if_neg hcs, ih (Option.map_eq_none_iff.mp h), Option.map_map]
      rfl

theorem plainKey?_drop {xs ys zs : List Char} (h : plainKey? (xs ++ ys) = some (xs ++ zs)) :
    plainKey? ys = some zs := by
  induction xs with
  | nil => exact h
  | cons c cs ih =>
    rw [List.cons_append, plainKey?] at h
    split at h
    · cases h
    · obtain ⟨r, hr, heq⟩ := Option.map_eq_some_iff.mp h
      obtain rfl := (List.cons.inj heq).2
      exact ih hr

theorem plainKey?_head {cs : List Char} (h : plainKey? (blanks ++ cs) = some blanks) :
    ∃ rest, cs = ':' :: rest := by
  have hnil : plainKey? cs = some [] := by
    refine plainKey?_drop (h.trans ?_)
    rw [List.append_nil]
  cases cs with
  | nil => cases hnil
  | cons c rest =>
    rw [plainKey?] at hnil
    split at hnil
    · rename_i hc
      exact ⟨rest, by rw [hc.1]⟩
    · obtain ⟨r, -, heq⟩ := Option.map_eq_some_iff.mp hnil
      cases heq

theorem opensOther_cons (c : Char) (cs : List Char) :
    opensOther (c::cs) = if c = '-' then cs.isEmpty || cs.head?.any isGap
      else "[\x7b?&*!|>%@\x60".toList.contains c := by
  unfold opensOther
  split <;> simp_all

theorem opensOther_append {xs : List Char} (h : opensOther xs = false) (ys : List Char) :
    opensOther (xs ++ ys) = false := by
  cases xs with
  | nil => cases h
  | cons c cs =>
    rw [opensOther_cons] at h
    rw [List.cons_append, opensOther_cons]
    split at h
    · cases cs with
      | nil => cases h
      | cons d ds => rwa [if_pos ‹c = '-'›]
    · rwa [if_neg ‹¬c = '-'›]

theorem isPrefixOf_append {mark xs : List Char} {d : Char} (h : mark.isPrefixOf xs = false)
    (hd : d ∉ mark) (ys : List Char) : mark.isPrefixOf (xs ++ d::ys) = false := by
  induction mark generalizing xs with
  | nil => cases h
  | cons a mark ih =>
    rw [List.mem_cons, not_or] at hd
    cases xs with
    | nil =>
      have ha : (a == d) = false := beq_false_of_ne (Ne.symm hd.1)
      rw [List.nil_append, List.isPrefixOf_cons_cons, ha, Bool.false_and]
    | cons x xs =>
      rw [List.isPrefixOf_cons_cons, Bool.and_eq_false_imp] at h
      rw [List.cons_append, List.isPrefixOf_cons_cons, Bool.and_eq_false_imp]
      exact fun hax => ih (h hax) hd.2

theorem isStructural_append {xs : List Char} {d : Char} (h : isStructural xs = false)
    (hd : isBlank d = true ∨ d = ':') (ys : List Char) : isStructural (xs ++ d::ys) = false := by
  have hother : d ∉ ['#', '-', '.'] := by
    intro hmem
    have hmarks : ['#', '-', '.'].all (fun c => !isBlank c && c != ':') = true := by decide
    have hnone := List.all_eq_true.mp hmarks d hmem
    rcases hd with hd | rfl
    · simp [hd] at hnone
    · cases hnone
  have hmark : d ∉ ['#'] ∧ d ∉ "---".toList ∧ d ∉ "...".toList := by
    simp_all
  simp only [isStructural, Bool.or_eq_false_iff] at h ⊢
  exact ⟨⟨isPrefixOf_append h.1.1 hmark.1 ys, isPrefixOf_append h.1.2 hmark.2.1 ys⟩,
    isPrefixOf_append h.2 hmark.2.2 ys⟩

/-- A plain key with the white space behind it, up to the colon. -/
structure Keyed (key blanks rest : List Char) : Prop where
  ne_nil : key ≠ []
  trimmed : trimEnd (key ++ blanks) = key
  blank : ∀ c ∈ blanks, isBlank c = true
  colon : plainKey? (blanks ++ ':' :: rest) = some blanks
  written : writtenKey? (key ++ (blanks ++ ':' :: rest)) = some (key ++ blanks)

theorem keyed_of_ofLine? {line : List Char} {e : Entry} (h : ofLine? line = some e)
    (hquote : line.head?.any isQuote = false) :
    ∃ key blanks rest, line = key ++ (blanks ++ ':' :: rest) ∧ Keyed key blanks rest ∧
      e.key = ⟨0, byteSize key⟩ := by
  obtain ⟨written, gap, valueGap, rest, hline, hwritten, -, -, hne, rfl⟩ := ofLine?_parts h
  obtain ⟨blanks, hblanks, hkey⟩ := trimEnd_append_blanks written
  have hplain : plainKey? line = some written := by
    cases line with
    | nil => cases hwritten
    | cons c cs =>
      have hc : isQuote c = false := hquote
      simp only [writtenKey?, hc, Bool.false_eq_true, if_false] at hwritten
      split at hwritten
      · cases hwritten
      · exact hwritten
  rw [List.append_assoc] at hline
  rw [hline] at hplain
  obtain ⟨behind, hbehind⟩ := plainKey?_head hplain
  have hparts : line = trimEnd written ++ (blanks ++ ':' :: behind) := by
    rw [hline, hbehind, ← List.append_assoc, hkey]
  refine ⟨trimEnd written, blanks, behind, hparts, ⟨hne, ?_, hblanks, ?_, ?_⟩, rfl⟩
  · rw [hkey]
  · rw [hbehind, ← hkey, List.append_assoc] at hplain
    exact plainKey?_drop hplain
  · rw [← hparts, hwritten, hkey]

variable {key name blanks rest : List Char}

theorem Named.keyed (hn : Named name) (hk : Keyed key blanks rest) : Keyed name blanks rest := by
  refine ⟨hn.ne_nil, ?_, hk.blank, hk.colon, ?_⟩
  · rw [trimEnd, dropEndWhile_append_all hk.blank]
    exact hn.trimmed
  · have hplain := plainKey?_append hn.colon (blanks ++ ':' :: rest)
    rw [hk.colon, Option.map_some] at hplain
    cases name with
    | nil => exact absurd rfl hn.ne_nil
    | cons c cs =>
      have hquote : isQuote c = false := hn.quote
      have hother := opensOther_append hn.other (blanks ++ ':' :: rest)
      rw [List.cons_append] at hother hplain ⊢
      simp only [writtenKey?, hquote, hother, Bool.false_eq_true, if_false]
      exact hplain

theorem byteSize_trimEnd_key (key blanks rest : List Char) :
    byteSize (trimEnd (key ++ (blanks ++ ':' :: rest))) =
      byteSize key + byteSize (trimEnd (blanks ++ ':' :: rest)) := by
  rw [← List.append_assoc, trimEnd_colon, trimEnd_colon, List.append_assoc, byteSize_append]

theorem ofLine?_rename (hk : Keyed key blanks rest) (hn : Keyed name blanks rest)
    (hsize : byteSize name = byteSize key) :
    ofLine? (name ++ (blanks ++ ':' :: rest)) = ofLine? (key ++ (blanks ++ ':' :: rest)) := by
  have hdrop : ∀ word : List Char,
      (word ++ (blanks ++ ':' :: rest)).drop (word ++ blanks).length = ':' :: rest := by
    intro word
    rw [← List.append_assoc, List.drop_left]
  have hname : name.isEmpty = false := List.isEmpty_eq_false_iff.mpr hn.ne_nil
  have hkey : key.isEmpty = false := List.isEmpty_eq_false_iff.mpr hk.ne_nil
  have hcolon : isGap ':' = false := by decide
  simp only [ofLine?, hk.written, hn.written, bind, Option.bind_some, hdrop, hk.trimmed, hn.trimmed,
    List.takeWhile_cons, hcolon, Bool.false_eq_true, if_false, List.length_nil, List.drop_zero, hname, hkey, byteSize_append,
    byteSize_trimEnd_key, hsize]

theorem marked_rename {e : Entry} {tail : List Char} {limit : Nat} (he : e.Lies limit)
    (hkey : e.key = ⟨0, byteSize key⟩) (hsize : byteSize name = byteSize key) :
    marked (name ++ tail) e = marked (key ++ tail) e := by
  cases hv : e.value with
  | none => simp [marked, hv]
  | some v =>
    have hstart := Nat.le_of_lt (he.apart v hv)
    rw [hkey] at hstart
    obtain ⟨n, hn⟩ := Nat.exists_eq_add_of_le hstart
    have hdrop : dropBytes v.start (name ++ tail) = dropBytes v.start (key ++ tail) := by
      rw [hn, dropBytes_append, ← hsize, dropBytes_append]
    simp only [marked, hv, Option.any_some, hdrop]

/-- A line has the same role under another key. -/
theorem role_rename {m : Marked} (h : Role.ofLine (key ++ (blanks ++ ':' :: rest)) = .opens m)
    (hk : Keyed key blanks rest) (hkey : m.entry.key = ⟨0, byteSize key⟩) (hn : Named name)
    (hsize : byteSize name = byteSize key) :
    Role.ofLine (name ++ (blanks ++ ':' :: rest)) = .opens m := by
  obtain ⟨hline, hmarked⟩ := role_opens h
  obtain ⟨d, ds, hd, hblank⟩ :
      ∃ d ds, blanks ++ ':' :: rest = d::ds ∧ (isBlank d = true ∨ d = ':') := by
    cases hblanks : blanks with
    | nil => exact ⟨':', rest, rfl, Or.inr rfl⟩
    | cons b bs =>
      exact ⟨b, bs ++ ':' :: rest, rfl, Or.inl (hk.blank b (hblanks ▸ List.mem_cons_self))⟩
  have hstructural := isStructural_append hn.structural hblank ds
  rw [← hd] at hstructural
  have hgap : (name ++ (blanks ++ ':' :: rest)).head?.any isGap = false := by
    have hgap := hn.gap
    cases name with
    | nil => exact absurd rfl hn.ne_nil
    | cons c cs => exact hgap
  have htrim : (trim (name ++ (blanks ++ ':' :: rest))).isEmpty = false := by
    have hcolon : ':' ∈ name ++ (blanks ++ ':' :: rest) := by simp
    exact List.isEmpty_eq_false_iff.mpr (List.ne_nil_of_mem (mem_trim hcolon (by decide)))
  rw [Role.ofLine, htrim, hgap, hstructural, ofLine?_rename hk (hn.keyed hk) hsize, hline]
  simp only [Bool.false_eq_true, if_false]
  rw [marked_rename (ofLine?_lies hline) hkey hsize, ← hmarked]

end Line

section Scan

theorem exists_line_of_mem {s : Span} {start : Nat} {ls : List Line} (h : s ∈ keySpans start ls) :
    ∃ before l after m, ls = before ++ l :: after ∧ Role.ofLine (scanned l) = .opens m ∧
      s = m.entry.key.shift (start + byteSize (before.flatMap Line.chars)) := by
  induction ls generalizing start with
  | nil => cases h
  | cons l ls ih =>
    have hlater (hmem : s ∈ keySpans (start + l.size) ls) :
        ∃ before k after m, l::ls = before ++ k :: after ∧ Role.ofLine (scanned k) = .opens m ∧
          s = m.entry.key.shift (start + byteSize (before.flatMap Line.chars)) := by
      obtain ⟨before, k, after, m, rfl, hrole, rfl⟩ := ih hmem
      refine ⟨l::before, k, after, m, rfl, hrole, ?_⟩
      rw [List.flatMap_cons, byteSize_append, l.byteSize_chars, Nat.add_assoc]
    rw [keySpans] at h
    cases hrole : Role.ofLine (scanned l) with
    | idle =>
      rw [hrole] at h
      exact hlater h
    | continues =>
      rw [hrole] at h
      exact hlater h
    | opens m =>
      rw [hrole] at h
      rcases List.mem_cons.mp h with rfl | hmem
      · exact ⟨[], l, ls, m, rfl, hrole, rfl⟩
      · exact hlater hmem

/-- The scan does not tell apart two lines of one size that do the same to it. -/
theorem scan_replace {before after : List Line} {l l' : Line} (hsize : l'.size = l.size)
    (hrole : ∀ start found,
      Marked.advance start found (scanned l') = Marked.advance start found (scanned l))
    (start : Nat) (found : List Marked) :
    Marked.scan start found (before ++ l' :: after) =
      Marked.scan start found (before ++ l :: after) := by
  induction before generalizing start found with
  | nil => simp only [List.nil_append, Marked.scan, hsize, hrole]
  | cons k before ih => simp only [List.cons_append, Marked.scan, ih]

structure Stands (source : List Char) (e : Entry) (before after : List Line) (l : Line)
    (m : Marked) (key blanks rest : List Char) : Prop where
  lines_eq : lines source = before ++ l :: after
  role : Role.ofLine (scanned l) = .opens m
  scanned_eq : scanned l = key ++ (blanks ++ ':' :: rest)
  keyed : Keyed key blanks rest
  key_eq : m.entry.key = ⟨0, byteSize key⟩
  place : e.key = ⟨byteSize (before.flatMap Line.chars),
    byteSize (before.flatMap Line.chars) + byteSize key⟩

variable {source name : List Char} {e : Entry}

theorem exists_key_line (he : e ∈ entries source) :
    ∃ before l after m key tail, lines source = before ++ l :: after ∧
      Role.ofLine (scanned l) = .opens m ∧ scanned l = key ++ tail ∧
      m.entry.key = ⟨0, byteSize key⟩ ∧
      e.key = ⟨byteSize (before.flatMap Line.chars),
        byteSize (before.flatMap Line.chars) + byteSize key⟩ ∧ slice source e.key = key := by
  have hmem : e.key ∈ keySpans 0 (lines source) := by
    rw [← map_key_entries]
    exact List.mem_map_of_mem he
  obtain ⟨before, l, after, m, hlines, hrole, hplace⟩ := exists_line_of_mem hmem
  obtain ⟨key, tail, hline, hkey⟩ := role_key hrole
  obtain ⟨returns, hchars⟩ := scanned_isPrefix l
  have hspan : e.key = ⟨byteSize (before.flatMap Line.chars),
      byteSize (before.flatMap Line.chars) + byteSize key⟩ := by
    rw [hplace, hkey, Span.shift, Nat.zero_add, Nat.zero_add, Nat.add_comm]
  have hholds : Holds source e.key key := by
    refine ⟨before.flatMap Line.chars, tail ++ (returns ++ after.flatMap Line.chars), ?_, hspan⟩
    conv => lhs; rw [← flatMap_chars_lines source, hlines, List.flatMap_append, List.flatMap_cons,
      ← hchars, hline]
    simp
  exact ⟨before, l, after, m, key, tail, hlines, hrole, hline, hkey, hspan, hholds.slice_eq⟩

theorem exists_stands (he : e ∈ entries source)
    (hquote : (slice source e.key).head?.any isQuote = false) :
    ∃ before after l m key blanks rest, Stands source e before after l m key blanks rest := by
  obtain ⟨before, l, after, m, key, tail, hlines, hrole, hline, hkey, hspan, hslice⟩ :=
    exists_key_line he
  rw [hslice] at hquote
  obtain ⟨hofLine, -⟩ := role_opens hrole
  have hquoteLine : (scanned l).head?.any isQuote = false := by
    rw [hline]
    cases key with
    | nil =>
      have hlt := (ofLine?_lies hofLine).key_lt
      rw [hkey] at hlt
      exact absurd hlt (Nat.lt_irrefl 0)
    | cons c cs => exact hquote
  obtain ⟨key', blanks, rest, hparts, hkeyed, hkey'⟩ := keyed_of_ofLine? hofLine hquoteLine
  have hsame : byteSize key = byteSize key' := by
    rw [hkey] at hkey'
    exact congrArg Span.stop hkey'
  obtain ⟨rfl, rfl⟩ := eq_of_byteSize_eq (hline.symm.trans hparts) hsame
  exact ⟨before, after, l, m, key, blanks, rest, hlines, hrole, hparts, hkeyed, hkey', hspan⟩

theorem dropEndWhile_colon {p : Char → Bool} (hp : p ':' = false) (xs blanks rest : List Char) :
    dropEndWhile p (xs ++ (blanks ++ ':' :: rest)) =
      xs ++ (blanks ++ ':' :: dropEndWhile p rest) := by
  have hcolon : dropEndWhile p (':' :: rest) = ':' :: dropEndWhile p rest :=
    dropEndWhile_cons hp rest
  rw [← List.append_assoc, dropEndWhile_append, hcolon, List.append_assoc]
  rw [hcolon]
  exact List.cons_ne_nil _ _

theorem chars_append (part tail : List Char) (ended : Bool) :
    (⟨part ++ tail, ended⟩ : Line).chars = part ++ (⟨tail, ended⟩ : Line).chars := by
  cases ended with
  | true => exact List.append_assoc part tail ['\n']
  | false => rfl

theorem scanned_rename {l : Line} {key blanks rest : List Char}
    (h : scanned l = key ++ (blanks ++ ':' :: rest)) (name : List Char) :
    ∃ tail, l.content = key ++ tail ∧
      scanned ⟨name ++ tail, l.ended⟩ = name ++ (blanks ++ ':' :: rest) := by
  obtain ⟨returns, hcontent⟩ := dropEndWhile_isPrefix (p := (· == '\r')) l.content
  change scanned l ++ returns = l.content at hcontent
  rw [h, List.append_assoc, List.append_assoc, List.cons_append] at hcontent
  refine ⟨blanks ++ ':' :: (rest ++ returns), hcontent.symm, ?_⟩
  have hcolon : (':' == '\r') = false := by decide
  have hkey : scanned l = key ++ (blanks ++ ':' :: dropEndWhile (· == '\r') (rest ++ returns)) := by
    rw [scanned, ← hcontent, dropEndWhile_colon hcolon]
  rw [h] at hkey
  have hrest : rest = dropEndWhile (· == '\r') (rest ++ returns) :=
    (List.cons.inj (List.append_cancel_left (List.append_cancel_left hkey))).2
  rw [scanned, dropEndWhile_colon hcolon, ← hrest]

/-- The entries of a text stay if a plain key is overwritten by a name of its size. -/
theorem entries_overwrite (he : e ∈ entries source)
    (hquote : (slice source e.key).head?.any isQuote = false) (hn : Named name)
    (hsize : byteSize name = e.key.size) : entries (overwrite source e.key name) = entries source := by
  obtain ⟨before, after, l, m, key, blanks, rest, h⟩ := exists_stands he hquote
  have hkeySize : byteSize name = byteSize key := by
    rw [hsize, h.place, Span.size, Nat.add_sub_cancel_left]
  obtain ⟨tail, hcontent, hscanned⟩ := scanned_rename h.scanned_eq name
  have hcut : IsCut (before ++ l :: after) := h.lines_eq ▸ isCut_lines source
  have hnewline : '\n' ∉ name ++ tail := by
    have hl := hcut.newline_not_mem (List.mem_append_right before List.mem_cons_self)
    rw [hcontent, List.mem_append, not_or] at hl
    rw [List.mem_append, not_or]
    exact ⟨hn.newline, hl.2⟩
  have hne : name ++ tail ≠ [] := List.append_ne_nil_of_left_ne_nil hn.ne_nil tail
  have hsource : source = before.flatMap Line.chars ++
      (key ++ ((⟨tail, l.ended⟩ : Line).chars ++ after.flatMap Line.chars)) := by
    conv => lhs; rw [← flatMap_chars_lines source, h.lines_eq]
    rw [List.flatMap_append, List.flatMap_cons, ← List.append_assoc key, ← chars_append, ← hcontent]
  have hover : overwrite source e.key name =
      (before ++ ⟨name ++ tail, l.ended⟩ :: after).flatMap Line.chars := by
    rw [h.place, List.flatMap_append, List.flatMap_cons, chars_append, List.append_assoc]
    conv => lhs; rw [hsource, overwrite_append]
  have hlines : lines (overwrite source e.key name) = before ++ ⟨name ++ tail, l.ended⟩ :: after := by
    rw [hover]
    exact lines_flatMap (hcut.replace rfl hnewline hne)
  have hrole : ∀ start found, Marked.advance start found (scanned ⟨name ++ tail, l.ended⟩) =
      Marked.advance start found (scanned l) := by
    intro start found
    have hl := h.role
    rw [h.scanned_eq] at hl
    rw [Marked.advance, Marked.advance, h.role, hscanned,
      role_rename hl h.keyed h.key_eq hn hkeySize]
  have hlineSize : (⟨name ++ tail, l.ended⟩ : Line).size = l.size := by
    simp only [Line.size, hcontent, byteSize_append, hkeySize]
  rw [entries_eq_scan, entries_eq_scan, hlines, h.lines_eq, scan_replace hlineSize hrole]

end Scan

end SlideDirectives.Yaml.Entry
