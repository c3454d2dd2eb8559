import Mathlib.Order.Bounds.Basic
import SlideDirectives.Proofs.Text.PositionOrder
import SlideDirectives.Proofs.Text.Trim

/-!
# Offsets and positions are inverse

A line of a text is what stands between two newlines. The boundaries on it are
the sizes of what stands above it and of a first part of it, and the column of
such a boundary counts the units of that part. So a position resolves to the
first boundary on its line that is not in front of it.
-/

set_option autoImplicit false

namespace SlideDirectives.Text

section Floor

theorem isGreatest_takeBytes (cs : List Char) (o : Nat) :
    IsGreatest {n | isBoundary cs n = true ∧ n ≤ min o (byteSize cs)} (byteSize (takeBytes o cs)) := by
  have hcut := takeBytes_append_dropBytes o cs
  refine ⟨⟨isBoundary_iff.mpr ⟨_, _, hcut.symm, rfl⟩, ?_⟩, ?_⟩
  · refine Nat.le_min.mpr ⟨byteSize_takeBytes_le o cs, ?_⟩
    conv_rhs => rw [← hcut, byteSize_append]
    exact Nat.le_add_right _ _
  · rintro n ⟨hn, hle⟩
    have htake := takeBytes_takeBytes (Nat.le_min.mp hle).1 cs
    have hpart := byteSize_append (takeBytes n (takeBytes o cs)) (dropBytes n (takeBytes o cs))
    rw [takeBytes_append_dropBytes, htake, beq_iff_eq.mp hn] at hpart
    omega

theorem takeBytes_floor (cs : List Char) (o : Nat) :
    takeBytes (byteSize (takeBytes o cs)) cs = takeBytes o cs := by
  have hcut := takeBytes_byteSize_append (takeBytes o cs) (dropBytes o cs)
  rwa [takeBytes_append_dropBytes] at hcut

theorem count_takeBytes_le (n : Nat) (cs : List Char) :
    (takeBytes n cs).count '\n' ≤ cs.count '\n' := by
  have hcount := congrArg (List.count '\n') (takeBytes_append_dropBytes n cs)
  rw [List.count_append] at hcount
  omega

end Floor

section Rows

theorem exists_prefix_count {cs : List Char} {line : Nat} (h : line ≤ cs.count '\n') :
    ∃ before after, cs = before ++ after ∧ before.count '\n' = line := by
  induction cs generalizing line with
  | nil => exact ⟨[], [], rfl, (Nat.le_zero.mp h).symm⟩
  | cons c cs ih =>
    cases line with
    | zero => exact ⟨[], c::cs, rfl, rfl⟩
    | succ line =>
      by_cases hc : c = '\n'
      · subst hc
        rw [List.count_cons_self] at h
        obtain ⟨before, after, rfl, hcount⟩ := ih (Nat.le_of_succ_le_succ h)
        exact ⟨'\n' :: before, after, rfl, by rw [List.count_cons_self, hcount]⟩
      · rw [List.count_cons_of_ne hc] at h
        obtain ⟨before, after, rfl, hcount⟩ := ih h
        exact ⟨c::before, after, rfl, by rw [List.count_cons_of_ne hc, hcount]⟩

theorem exists_isRow {cs : List Char} {line : Nat} (h : line ≤ cs.count '\n') :
    ∃ above row below, IsRow cs above row below ∧ above.count '\n' = line := by
  obtain ⟨before, after, rfl, rfl⟩ := exists_prefix_count h
  obtain ⟨above, rest, below, hrow, habove⟩ := exists_isRow_at before after
  refine ⟨above, _, below, hrow, ?_⟩
  conv_rhs => rw [habove, List.count_append, List.count_eq_zero.mpr (newline_not_mem_lastRow _)]
  rfl

end Rows

section Columns

theorem columnBytes_part (n : Nat) (row : List Char) : ∃ part rest, row = part ++ rest ∧
    columnBytes n row = byteSize part ∧ (n ≤ unitCount part ∨ rest = []) ∧
    ∀ part', part' <+: row → n ≤ unitCount part' → byteSize part ≤ byteSize part' := by
  induction row generalizing n with
  | nil => exact ⟨[], [], rfl, by cases n <;> rfl, Or.inr rfl, fun _ _ _ => Nat.zero_le _⟩
  | cons c row ih =>
    cases n with
    | zero => exact ⟨[], c::row, rfl, rfl, Or.inl (Nat.zero_le _), fun _ _ _ => Nat.zero_le _⟩
    | succ n =>
      obtain ⟨part, rest, rfl, hbytes, hreach, hleast⟩ := ih (n + 1 - units c)
      refine ⟨c::part, rest, rfl, ?_, hreach.imp_left fun h => ?_, ?_⟩
      · rw [columnBytes, hbytes, byteSize]
      · rw [unitCount]
        omega
      · intro part' hpart' hn
        cases part' with
        | nil => cases hn
        | cons d ds =>
          obtain ⟨rfl, hds⟩ := List.cons_prefix_cons.mp hpart'
          rw [unitCount] at hn
          have := hleast ds hds (by omega)
          simp only [byteSize]
          omega

end Columns

namespace IsRow

variable {cs above row below part : List Char}

theorem exists_part (h : IsRow cs above row below) {before after : List Char}
    (hcs : cs = before ++ after) (hcount : before.count '\n' = above.count '\n') :
    ∃ part, part <+: row ∧ before = above ++ part := by
  rcases List.append_eq_append_iff.mp (hcs.symm.trans h.parts) with ⟨t, rfl, -⟩ | ⟨t, rfl, ht⟩
  · rw [List.count_append] at hcount
    have hnone : '\n' ∉ t := List.count_eq_zero.mp (by omega)
    rcases List.eq_nil_or_concat t with rfl | ⟨ts, c, rfl⟩
    · exact ⟨[], List.nil_prefix, by rw [List.append_nil, List.append_nil]⟩
    · rcases h.opened with hnil | ⟨as, has⟩
      · simp at hnil
      · have hlast := congrArg List.getLast? has
        simp only [List.concat_eq_append, ← List.append_assoc, List.getLast?_concat] at hlast
        simp [Option.some.inj hlast] at hnone
  · rw [List.count_append] at hcount
    have hnone : '\n' ∉ t := List.count_eq_zero.mp (by omega)
    refine ⟨t, ?_, rfl⟩
    rcases List.append_eq_append_iff.mp ht with ⟨u, rfl, hu⟩ | ⟨u, rfl, -⟩
    · cases u with
      | nil => exact ⟨[], by rw [List.append_nil, List.append_nil]⟩
      | cons c u =>
        rcases h.closed with hnil | ⟨bs, hbs⟩
        · rw [hnil] at hu
          cases hu
        · rw [hbs] at hu
          obtain ⟨rfl, -⟩ := List.cons.inj hu
          simp at hnone
    · exact List.prefix_append t u

end IsRow

namespace Document

structure OnLine (d : Document) (line n : Nat) : Prop where
  boundary : isBoundary d.text n = true
  newlines : (takeBytes n d.text).count '\n' = line

structure EndsLine (d : Document) (line n : Nat) : Prop extends d.OnLine line n where
  behind : dropBytes n d.text = [] ∨ ∃ below, dropBytes n d.text = '\n' :: below

section Lines

variable {d : Document} {above row below : List Char}

theorem length_lineStarts (d : Document) : d.lineStarts.length = d.text.count '\n' + 1 := by
  rw [lineStarts, List.length_cons, length_newlineEnds]

theorem positionAt_takeBytes (d : Document) (o : Nat) :
    d.positionAt o = d.positionAt (byteSize (takeBytes o d.text)) := by
  rw [positionAt_eq, positionAt_eq, takeBytes_floor]

theorem onLine_part (h : IsRow d.text above row below) {part : List Char} (hpart : part <+: row) :
    d.OnLine (above.count '\n') (byteSize (above ++ part)) ∧
      d.positionAt (byteSize (above ++ part)) = ⟨above.count '\n', unitCount part⟩ := by
  obtain ⟨rest, rfl⟩ := hpart
  have htext : d.text = (above ++ part) ++ (rest ++ below) := by
    rw [h.parts]
    simp
  have htake : takeBytes (byteSize (above ++ part)) d.text = above ++ part := by
    rw [htext, takeBytes_byteSize_append]
  have hposition : d.positionAt (byteSize (above ++ part)) = ⟨above.count '\n', unitCount part⟩ := by
    rw [positionAt_eq, htake, h.behind_part (List.prefix_append part rest)]
  refine ⟨⟨htext ▸ isBoundary_byteSize _ _, ?_⟩, hposition⟩
  rw [← line_behind, ← positionAt_eq, hposition]

theorem OnLine.exists_part (h : IsRow d.text above row below) {n : Nat}
    (hn : d.OnLine (above.count '\n') n) :
    ∃ part, part <+: row ∧ n = byteSize (above ++ part) := by
  obtain ⟨part, hpart, htake⟩ :=
    h.exists_part (takeBytes_append_dropBytes n d.text).symm hn.newlines
  exact ⟨part, hpart, by rw [← htake, beq_iff_eq.mp hn.boundary]⟩

theorem isGreatest_line {f line : Nat} (hf : d.OnLine line f) :
    IsGreatest {line | ∃ start, d.lineStart? line = some start ∧ start ≤ f} line := by
  have hle : line ≤ d.text.count '\n' := hf.newlines ▸ count_takeBytes_le f d.text
  constructor
  · obtain ⟨above, row, below, hrow, rfl⟩ := exists_isRow hle
    obtain ⟨part, -, rfl⟩ := hf.exists_part hrow
    exact ⟨byteSize above, hrow.lineStart, by simp [byteSize_append]⟩
  · rintro line' ⟨start, hstart, hsf⟩
    have hline : line' ≤ d.text.count '\n' := by
      obtain ⟨hlt, -⟩ := List.getElem?_eq_some_iff.mp hstart
      rw [length_lineStarts] at hlt
      exact Nat.le_of_lt_succ hlt
    obtain ⟨above, row, below, hrow, rfl⟩ := exists_isRow hline
    obtain rfl : byteSize above = start := Option.some.inj (hrow.lineStart.symm.trans hstart)
    have hprefix := (onLine_part hrow List.nil_prefix).1.newlines
    rw [List.append_nil, ← takeBytes_takeBytes hsf] at hprefix
    rw [← hf.newlines, ← hprefix]
    exact count_takeBytes_le _ _

theorem lineStart?_past {line : Nat} (h : d.text.count '\n' < line) :
    d.lineStart? line = none := by
  rw [lineStart?, List.getElem?_eq_none_iff, length_lineStarts]
  exact h

theorem offsetAt_past {p : Position} (h : d.text.count '\n' < p.line) :
    d.offsetAt p = byteSize d.text := by
  rw [offsetAt, lineStart?_past h]

/-- On a line that exists a position resolves to the first boundary that is not
in front of it, or else to the end of the line. -/
theorem offsetAt_line {p : Position} (h : p.line ≤ d.text.count '\n') :
    IsLeast {n | d.OnLine p.line n ∧ p.le (d.positionAt n) = true} (d.offsetAt p) ∨
      (∀ n, d.OnLine p.line n → (d.positionAt n).Before p) ∧ d.EndsLine p.line (d.offsetAt p) := by
  obtain ⟨above, row, below, hrow, hline⟩ := exists_isRow h
  obtain ⟨part, rest, rfl, hbytes, hreach, hleast⟩ := columnBytes_part p.character row
  have hoffset : d.offsetAt p = byteSize (above ++ part) := by
    rw [byteSize_append, ← hbytes, ← hrow.offsetAt_eq, hline]
  have hpart := onLine_part hrow (List.prefix_append part rest)
  rw [hline] at hpart
  by_cases hcolumn : p.character ≤ unitCount part
  · refine Or.inl ⟨⟨hoffset ▸ hpart.1, ?_⟩, ?_⟩
    · rw [hoffset, hpart.2]
      simpa [Position.le] using hcolumn
    · rintro n ⟨hn, hle⟩
      rw [← hline] at hn
      obtain ⟨part', hpart', rfl⟩ := hn.exists_part hrow
      rw [(onLine_part hrow hpart').2, hline] at hle
      have hle' : p.character ≤ unitCount part' := by simpa [Position.le] using hle
      have := hleast part' hpart' hle'
      rw [hoffset, byteSize_append, byteSize_append]
      omega
  · obtain rfl : rest = [] := hreach.resolve_left hcolumn
    rw [List.append_nil] at hrow
    refine Or.inr ⟨fun n hn => ?_, ⟨hoffset ▸ hpart.1, ?_⟩⟩
    · rw [← hline] at hn
      obtain ⟨part', ⟨more, rfl⟩, rfl⟩ := hn.exists_part hrow
      rw [(onLine_part hrow (List.prefix_append part' more)).2]
      rw [unitCount_append] at hcolumn
      refine Or.inr ⟨hline, ?_⟩
      change unitCount part' < p.character
      omega
    · have htext : d.text = (above ++ part) ++ below := by
        rw [hrow.parts, List.append_assoc]
      have hbehind : dropBytes (d.offsetAt p) d.text = below := by
        rw [hoffset, htext, dropBytes_byteSize_append]
      rw [hbehind]
      exact hrow.closed

theorem isBoundary_offsetAt (d : Document) (p : Position) :
    isBoundary d.text (d.offsetAt p) = true := by
  by_cases h : p.line ≤ d.text.count '\n'
  · rcases offsetAt_line h with hleast | ⟨-, hend⟩
    · exact hleast.1.1.boundary
    · exact hend.boundary
  · rw [offsetAt_past (Nat.lt_of_not_le h)]
    exact isBoundary_of_isPrefix List.prefix_rfl

end Lines

/-- An offset has the position of the last boundary up to it: the last line
that starts there or before, which is the number of newlines, and a column that
counts the units behind the last of them. That position resolves to the boundary
again. A position resolves to the first boundary on its line that is not in
front of it, to the end of its line if all are, and to the end of the text if
there is no such line. So exactly the positions of boundaries come back from the
offsets that they resolve to. -/
theorem positions_invert (d : Document) :
    (∀ o, ∃ f, IsGreatest {n | isBoundary d.text n = true ∧ n ≤ min o (byteSize d.text)} f ∧
        IsGreatest {line | ∃ start, d.lineStart? line = some start ∧ start ≤ f}
          (d.positionAt o).line ∧
        d.positionAt o =
          ⟨(takeBytes f d.text).count '\n', unitCount (lastRow (takeBytes f d.text))⟩ ∧
        d.offsetAt (d.positionAt o) = f) ∧
      (∀ p : Position, if p.line ≤ d.text.count '\n' then
          IsLeast {n | d.OnLine p.line n ∧ p.le (d.positionAt n) = true} (d.offsetAt p) ∨
            (∀ n, d.OnLine p.line n → (d.positionAt n).Before p) ∧
              d.EndsLine p.line (d.offsetAt p)
        else d.offsetAt p = byteSize d.text) ∧
      ∀ p, d.positionAt (d.offsetAt p) = p ↔
        ∃ n, isBoundary d.text n = true ∧ d.positionAt n = p := by
  refine ⟨fun o => ?_, fun p => ?_, fun p => ⟨fun h => ?_, ?_⟩⟩
  · have hfloor := isGreatest_takeBytes d.text o
    refine ⟨byteSize (takeBytes o d.text), hfloor, ?_, ?_, ?_⟩
    · refine isGreatest_line ⟨hfloor.1.1, ?_⟩
      rw [takeBytes_floor, positionAt_eq, line_behind]
    · rw [takeBytes_floor, positionAt_eq, behind_eq]
    · rw [positionAt_takeBytes]
      exact d.offsetAt_positionAt hfloor.1.1
  · split
    · exact offsetAt_line ‹_›
    · exact offsetAt_past (Nat.lt_of_not_le ‹_›)
  · exact ⟨d.offsetAt p, d.isBoundary_offsetAt p, h⟩
  · rintro ⟨n, hn, rfl⟩
    rw [d.offsetAt_positionAt hn]

end Document

end SlideDirectives.Text
