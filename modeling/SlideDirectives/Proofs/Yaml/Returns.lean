import Mathlib.Data.List.Forall2
import SlideDirectives.Proofs.Text.Returns
import SlideDirectives.Proofs.Yaml.PairPlace
import SlideDirectives.Proofs.Yaml.Rename

/-!
# Outlines of texts with carriage returns

The decoder sees a text without the carriage returns before its newlines, while
spans are offsets into the text as written. So with a carriage return before
each newline the outline is the same, and each span has moved by the newlines
before it, whatever the decoder does.
-/

set_option autoImplicit false

namespace SlideDirectives.Yaml

open Text

section Clean

variable {source : List Char}

theorem dropReturns_addReturns (h : '\r' ∉ source) : dropReturns (addReturns source) = source := by
  induction source with
  | nil => rfl
  | cons c cs ih =>
    have hcs := ih fun hcs => h (List.mem_cons_of_mem c hcs)
    by_cases hc : c = '\n'
    · subst hc
      rw [addReturns_newline, dropReturns, hcs]
    · have hreturn : c ≠ '\r' := fun hreturn => h (hreturn ▸ List.mem_cons_self)
      rw [addReturns_cons hc, dropReturns, hcs]
      exact fun cs' hc' => absurd hc' hreturn

theorem dropReturns_eq_self (h : '\r' ∉ source) : dropReturns source = source := by
  induction source with
  | nil => rfl
  | cons c cs ih =>
    have hreturn : c ≠ '\r' := fun hreturn => h (hreturn ▸ List.mem_cons_self)
    rw [dropReturns, ih fun hcs => h (List.mem_cons_of_mem c hcs)]
    exact fun cs' hc' => absurd hc' hreturn

theorem getLast?_ne_return (h : '\r' ∉ source) : source.getLast? ≠ some '\r' :=
  fun hlast => h (List.mem_of_getLast? hlast)

theorem clean_addReturns (h : '\r' ∉ source) : clean (addReturns source) = source := by
  rw [clean, dropReturns_addReturns h]
  exact if_neg (getLast?_ne_return h)

theorem clean_eq_self (h : '\r' ∉ source) : clean source = source := by
  rw [clean, dropReturns_eq_self h]
  exact if_neg (getLast?_ne_return h)

end Clean

namespace Entry

def map (f : Nat → Nat) (e : Entry) : Entry :=
  ⟨e.key.map f, e.value.map (Span.map f), f e.stop⟩

def Marked.map (f : Nat → Nat) (m : Marked) : Marked :=
  ⟨m.entry.map f, m.block⟩

theorem scanned_withReturn (l : Line) : scanned l.withReturn = scanned l := by
  obtain ⟨content, ended⟩ := l
  cases ended with
  | true => exact dropEndWhile_append_all (by simp)
  | false => rfl

section Scan

variable {f : Nat → Nat} {line : List Char} {start : Nat}

theorem shift_map {e : Entry} (hf : ∀ k ≤ byteSize line, f (start + k) = f start + k)
    (hfits : e.Fits line) (hlies : e.Lies (byteSize line + 1)) :
    (e.shift start).map f = e.shift (f start) := by
  have hspan : ∀ s : Span, s.Fits line → (s.shift start).map f = s.shift (f start) := by
    intro s hs
    have hstop := hf s.stop hs.bounded
    have hstart := hf s.start (Nat.le_trans hs.ordered hs.bounded)
    simp only [Span.map, Span.shift, Nat.add_comm _ start, Nat.add_comm _ (f start), hstart, hstop]
  have hend := hf e.stop (Nat.le_of_lt_succ hlies.stop_lt)
  rw [Nat.add_comm start, Nat.add_comm (f start)] at hend
  simp only [map, Entry.shift, hspan e.key hfits.key, hend]
  cases hvalue : e.value with
  | none => rfl
  | some v =>
    simp only [Option.map_some, hspan v (hfits.value v hvalue)]

theorem grow_map (e : Entry) (hf : ∀ k ≤ byteSize line, f (start + k) = f start + k) :
    (e.grow line start).map f = (e.map f).grow line (f start) := by
  have hstop := hf _ (byteSize_trimEnd_le line)
  have hstart := hf (byteSize line - byteSize (trimStart line)) (Nat.sub_le _ _)
  cases hvalue : e.value with
  | none => simp [map, grow, hvalue, hstop, hstart, Span.map]
  | some v => simp [map, grow, hvalue, hstop, Span.map]

theorem extend_map (m : Marked) (hf : ∀ k ≤ byteSize line, f (start + k) = f start + k) :
    (m.extend line start).map f = (m.map f).extend line (f start) := by
  have hblock : (m.map f).block = m.block := rfl
  have hvalue : (m.map f).entry.value.isSome = m.entry.value.isSome := by
    simp [Marked.map, map]
  rw [Marked.extend, Marked.extend, hblock, hvalue]
  split
  · exact congrArg (Marked.mk · _) (grow_map m.entry hf)
  · rfl

theorem advance_map (found : List Marked)
    (hf : ∀ k ≤ byteSize line, f (start + k) = f start + k) :
    (Marked.advance start found line).map (Marked.map f) =
      Marked.advance (f start) (found.map (Marked.map f)) line := by
  rw [Marked.advance, Marked.advance]
  cases hrole : Role.ofLine line with
  | idle => rfl
  | opens m =>
    obtain ⟨hline, -⟩ := role_opens hrole
    have hshift : (m.shift start).map f = m.shift (f start) :=
      congrArg (Marked.mk · m.block) (shift_map hf (ofLine?_fits hline) (ofLine?_lies hline))
    simp only [List.map_cons, hshift]
  | continues =>
    cases found with
    | nil => rfl
    | cons m ms => simp only [List.modifyHead_cons, List.map_cons, extend_map m hf]

theorem scan_withReturn {source before : List Char} {ls : List Line} (hcut : IsCut ls)
    (hs : source = before ++ ls.flatMap Line.chars) (found : List Marked) :
    Marked.scan (returned source (byteSize before)) (found.map (Marked.map (returned source)))
        (ls.map Line.withReturn) =
      (Marked.scan (byteSize before) found ls).map (Marked.map (returned source)) := by
  induction ls generalizing before found with
  | nil => rfl
  | cons l ls ih =>
    obtain ⟨hl, hcut⟩ := hcut
    have hsource : source = before ++ (l.chars ++ ls.flatMap Line.chars) := by
      rw [hs, List.flatMap_cons]
    have hcontent : ∀ k ≤ byteSize (scanned l),
        returned source (byteSize before + k) = returned source (byteSize before) + k := by
      intro k hk
      rw [hsource]
      exact returned_content hl.newline (Nat.le_trans hk (byteSize_scanned_le l))
    have hnext : returned source (byteSize before) + l.withReturn.size =
        returned source (byteSize (before ++ l.chars)) := by
      rw [byteSize_append, l.byteSize_chars, hsource, returned_size hl.newline]
    rw [List.map_cons, Marked.scan, Marked.scan, scanned_withReturn, ← advance_map found hcontent,
      hnext, ← l.byteSize_chars, ← byteSize_append]
    apply ih hcut
    rw [hsource, List.append_assoc]

theorem entries_addReturns (source : List Char) :
    entries (addReturns source) = (entries source).map (map (returned source)) := by
  have hsource : source = [] ++ (lines source).flatMap Line.chars :=
    (flatMap_chars_lines source).symm
  have hzero : returned source (byteSize []) = 0 := by
    rw [returned, byteSize, takeBytes_zero]
    rfl
  have hscan := scan_withReturn (isCut_lines source) hsource []
  rw [hzero, ← lines_addReturns] at hscan
  rw [entries_eq_scan, entries_eq_scan, List.map_reverse, List.map_map]
  change (List.map Marked.entry (Marked.scan 0 [] (lines (addReturns source)))).reverse = _
  rw [List.map_nil] at hscan
  rw [hscan, List.map_map]
  rfl

theorem newline_not_mem_key {source : List Char} {e : Entry} (he : e ∈ entries source) :
    '\n' ∉ slice source e.key := by
  obtain ⟨before, l, after, m, key, tail, hlines, -, hline, -, -, hslice⟩ := exists_key_line he
  obtain ⟨returns, hcontent⟩ : scanned l <+: l.content := dropEndWhile_isPrefix l.content
  have hcut := isCut_lines source
  rw [hlines] at hcut
  have hl := hcut.newline_not_mem (List.mem_append_right before List.mem_cons_self)
  rw [hslice]
  intro hmem
  rw [← hcontent, hline] at hl
  exact hl (List.mem_append_left _ (List.mem_append_left _ hmem))

end Scan

end Entry

/-- The same text, but for carriage returns before newlines, at the moved span. -/
structure Item.Returned (f : Nat → Nat) (a b : Item) : Prop where
  text : dropReturns b.text = dropReturns a.text
  span : b.span = a.span.map f

structure Pair.Returned (f : Nat → Nat) (p q : Pair) : Prop where
  key : q.key = ⟨p.key.text, p.key.span.map f⟩
  value : Option.Rel (Item.Returned f) p.value q.value

namespace Outline

/-- The outlines are of one kind and differ by moved spans and carriage returns. -/
inductive Returned (f : Nat → Nat) : Outline → Outline → Prop where
  | mapping {ps qs : List Pair} (pairs : List.Forall₂ (Pair.Returned f) ps qs) :
      Returned f (.mapping ps) (.mapping qs)
  | scalar {a b : List Char} (text : dropReturns b = dropReturns a) :
      Returned f (.scalar a) (.scalar b)
  | sequence (length : Nat) : Returned f (.sequence length) (.sequence length)
  | malformed : Returned f .malformed .malformed

variable {source : List Char} (decode : Decoder)

theorem return_not_mem_slice (h : '\r' ∉ source) (s : Span) : '\r' ∉ slice source s :=
  fun hmem => h (mem_slice hmem)

theorem slice_key_addReturns {e : Entry} (he : e ∈ entries source) :
    slice (addReturns source) (e.map (returned source)).key = slice source e.key := by
  have hfits := (Entry.entries_fit source e he).key
  have hslice := slice_addReturns hfits.startBoundary hfits.ordered
  rwa [addReturns_eq_self (Entry.newline_not_mem_key he)] at hslice

theorem clean_slice_addReturns (h : '\r' ∉ source) {e : Entry} (he : e ∈ entries source) :
    clean (slice (addReturns source)
        ⟨(e.map (returned source)).key.start, (e.map (returned source)).stop⟩) =
      clean (slice source ⟨e.key.start, e.stop⟩) := by
  have hfits := (Entry.entries_fit source e he).key
  have hlies := (Entry.entries_ordered source).2 e he
  have hle : e.key.start ≤ e.stop := Nat.le_trans (Nat.le_of_lt hlies.key_lt) hlies.key_le
  have hslice := slice_addReturns (s := ⟨e.key.start, e.stop⟩) hfits.startBoundary hle
  have hreturn := return_not_mem_slice h ⟨e.key.start, e.stop⟩
  rw [clean_eq_self hreturn, ← clean_addReturns hreturn, ← hslice]
  rfl

theorem value_addReturns (h : '\r' ∉ source) {e : Entry} (he : e ∈ entries source) (v : Value) :
    Option.Rel (Item.Returned (returned source))
      (e.value.map fun s => ⟨valueText (slice source s) v, s⟩)
      ((e.map (returned source)).value.map fun s =>
        ⟨valueText (slice (addReturns source) s) v, s⟩) := by
  rw [Entry.map]
  cases hvalue : e.value with
  | none => exact .none
  | some s =>
    have hfits := (Entry.entries_fit source e he).value s hvalue
    have hslice := slice_addReturns hfits.startBoundary hfits.ordered
    have hreturn := return_not_mem_slice h s
    refine .some ⟨?_, rfl⟩
    simp only [hslice]
    cases v with
    | string text => rfl
    -- Any other value is shown as written, so here the texts do differ.
    | _ => exact (dropReturns_addReturns hreturn).trans (dropReturns_eq_self hreturn).symm

theorem locate_addReturns (h : '\r' ∉ source) {es : List Entry}
    (hes : ∀ e ∈ es, e ∈ entries source) (found : List (Value × Value)) :
    List.Forall₂ (Pair.Returned (returned source)) (locate decode source es found)
      (locate decode (addReturns source) (es.map (Entry.map (returned source))) found) := by
  induction es generalizing found with
  | nil => exact .nil
  | cons e es ih =>
    have he := hes e List.mem_cons_self
    have hrest := fun found => ih (fun e' he' => hes e' (List.mem_cons_of_mem e he')) found
    rw [List.map_cons, locate, locate, slice_key_addReturns he]
    cases takeKey (isKey decode (slice source e.key)) found with
    | none => exact hrest found
    | some found => exact .cons ⟨rfl, value_addReturns h he found.1⟩ (hrest found.2)

theorem locateEach?_addReturns (h : '\r' ∉ source) {es : List Entry}
    (hes : ∀ e ∈ es, e ∈ entries source) :
    Option.Rel (List.Forall₂ (Pair.Returned (returned source))) (locateEach? decode source es)
      (locateEach? decode (addReturns source) (es.map (Entry.map (returned source)))) := by
  induction es with
  | nil => exact .some .nil
  | cons e es ih =>
    have he := hes e List.mem_cons_self
    have hrest := ih fun e' he' => hes e' (List.mem_cons_of_mem e he')
    rw [List.map_cons, locateEach?, locateEach?, clean_slice_addReturns h he]
    split
    · exact .none
    · rename_i found _
      have hself : ∀ e' ∈ [e], e' ∈ entries source := by simpa using he
      have hown := locate_addReturns decode h hself found
      generalize locateEach? decode source es = ps at hrest ⊢
      generalize locateEach? decode (addReturns source) _ = qs at hrest ⊢
      cases hrest with
      | none => exact .none
      | some hrest => exact .some (List.rel_append hown hrest)
    · exact hrest

theorem return_not_mem_trim (h : '\r' ∉ source) : '\r' ∉ trim source := by
  intro hmem
  have hstart := (trimEnd_isPrefix (trimStart source)).subset hmem
  exact h ((List.dropWhile_suffix isBlank).subset hstart)

theorem ofValue_addReturns (h : '\r' ∉ source) (v : Value) :
    Returned (returned source) (ofValue decode source v) (ofValue decode (addReturns source) v) := by
  have htrim : dropReturns (trim (addReturns source)) = dropReturns (trim source) := by
    have hreturn := return_not_mem_trim h
    rw [trim_addReturns, dropReturns_addReturns hreturn, dropReturns_eq_self hreturn]
  cases v with
  | tagged tag v =>
    rw [ofValue, ofValue]
    exact ofValue_addReturns h v
  | mapping found =>
    rw [ofValue, ofValue, Entry.entries_addReturns]
    exact .mapping (locate_addReturns decode h (fun e he => he) found)
  | sequence items => exact .sequence items.length
  | bool b => exact .scalar htrim
  | number n => exact .scalar htrim
  | _ => exact .scalar rfl

/-- With a carriage return before each newline a text has the same outline,
each span moved by the newlines before it, whatever the decoder does with the
texts that it is given. -/
theorem readWith_addReturns (h : '\r' ∉ source) :
    Returned (returned source) (readWith decode source) (readWith decode (addReturns source)) := by
  rw [readWith, readWith, clean_addReturns h, clean_eq_self h]
  split
  · exact .scalar rfl
  · split
    · exact ofValue_addReturns decode h _
    · split
      · rw [Entry.entries_addReturns]
        have hrel := locateEach?_addReturns decode h fun e (he : e ∈ entries source) => he
        generalize locateEach? decode source _ = ps at hrel ⊢
        generalize locateEach? decode (addReturns source) _ = qs at hrel ⊢
        cases hrel with
        | none => exact .malformed
        | some hpairs =>
          cases hpairs with
          | nil => exact .malformed
          | cons hpair hpairs => exact .mapping (.cons hpair hpairs)
      · exact .malformed

/-- A string and a sequence on two lines each, and a repeated key. -/
theorem readWith_addReturns_lines :
    let source := "ab: 'x\n  y'\ncd: [1,\n  2]\nab: 1".toList
    '\r' ∉ source ∧
      read source = .mapping
        [⟨⟨"ab".toList, ⟨0, 2⟩⟩, some ⟨"x y".toList, ⟨4, 11⟩⟩⟩,
          ⟨⟨"cd".toList, ⟨12, 14⟩⟩, some ⟨"[1,\n  2]".toList, ⟨16, 24⟩⟩⟩,
          ⟨⟨"ab".toList, ⟨25, 27⟩⟩, some ⟨['1'], ⟨29, 30⟩⟩⟩] ∧
      read (addReturns source) = .mapping
        [⟨⟨"ab".toList, ⟨0, 2⟩⟩, some ⟨"x y".toList, ⟨4, 12⟩⟩⟩,
          ⟨⟨"cd".toList, ⟨14, 16⟩⟩, some ⟨"[1,\r\n  2]".toList, ⟨18, 27⟩⟩⟩,
          ⟨⟨"ab".toList, ⟨29, 31⟩⟩, some ⟨['1'], ⟨33, 34⟩⟩⟩] ∧
      Returned (returned source) (read source) (read (addReturns source)) := by
  intro source
  have hreturn : '\r' ∉ source := by decide
  exact ⟨hreturn, by decide +kernel, by decide +kernel,
    readWith_addReturns Yaml.decode hreturn⟩

end Outline

end SlideDirectives.Yaml
