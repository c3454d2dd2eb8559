import Mathlib.Data.List.Induction
import SlideDirectives.Proofs.Text.Boundary
import SlideDirectives.Text.Document

/-!
# Resolving offsets and back

The table of line starts holds the end of each text that ends in a newline. So
the position of a boundary counts the newlines before it and the units behind
the last of them, which is what one gets by walking there character by
character, and that position resolves to the boundary again.
-/

set_option autoImplicit false

namespace SlideDirectives.Text

section Walk

def Position.after (p : Position) (c : Char) : Position :=
  if c = '\n' then ⟨p.line + 1, 0⟩ else ⟨p.line, p.character + units c⟩

/-- The position behind a text that starts at the origin. -/
def Position.behind (cs : List Char) : Position :=
  cs.foldl Position.after Position.origin

/-- The position is moved down by whole lines. -/
def Position.down (p : Position) (lines : Nat) : Position :=
  ⟨p.line + lines, p.character⟩

/-- What stands behind the last newline. -/
def lastRow (cs : List Char) : List Char :=
  (cs.reverse.takeWhile (· ≠ '\n')).reverse

theorem units_pos (c : Char) : 0 < units c := by
  unfold units
  split <;> omega

theorem unitCount_append (xs ys : List Char) :
    unitCount (xs ++ ys) = unitCount xs + unitCount ys := by
  induction xs with
  | nil => exact (Nat.zero_add _).symm
  | cons x xs ih => rw [List.cons_append, unitCount, unitCount, ih, Nat.add_assoc]

theorem lastRow_concat (cs : List Char) (c : Char) :
    lastRow (cs ++ [c]) = if c = '\n' then [] else lastRow cs ++ [c] := by
  by_cases hc : c = '\n' <;> simp [lastRow, hc]

theorem newline_not_mem_lastRow (cs : List Char) : '\n' ∉ lastRow cs := by
  intro hmem
  have hpass := List.all_eq_true.mp List.all_takeWhile _ (List.mem_reverse.mp hmem)
  simp at hpass

theorem behind_eq (cs : List Char) :
    Position.behind cs = ⟨cs.count '\n', unitCount (lastRow cs)⟩ := by
  induction cs using List.reverseRecOn with
  | nil => rfl
  | append_singleton cs c ih =>
    rw [Position.behind, List.foldl_append, ← Position.behind, ih, lastRow_concat]
    by_cases hc : c = '\n'
    · simp [Position.after, hc, unitCount]
    · simp [Position.after, hc, unitCount_append, unitCount]

theorem line_behind (cs : List Char) : (Position.behind cs).line = cs.count '\n' := by
  rw [behind_eq]

theorem lastRow_append_newline (xs ys : List Char) :
    lastRow (xs ++ '\n' :: ys) = lastRow ('\n' :: ys) := by
  induction ys using List.reverseRecOn with
  | nil => rw [lastRow_concat, if_pos rfl]; rfl
  | append_singleton ys c ih =>
    rw [← List.cons_append, ← List.append_assoc, lastRow_concat, lastRow_concat, ih]

theorem behind_append_newline (xs ys : List Char) :
    Position.behind (xs ++ '\n' :: ys) = (Position.behind ('\n' :: ys)).down (xs.count '\n') := by
  rw [behind_eq, behind_eq, lastRow_append_newline, List.count_append, Nat.add_comm]
  rfl

end Walk

section Floor

theorem takeBytes_of_le {cs : List Char} {n : Nat} (h : byteSize cs ≤ n) : takeBytes n cs = cs := by
  obtain ⟨k, rfl⟩ := Nat.exists_eq_add_of_le h
  have htake := takeBytes_append cs [] k
  rwa [List.append_nil, takeBytes, List.append_nil] at htake

theorem takeBytes_min (n : Nat) (cs : List Char) :
    takeBytes (min n (byteSize cs)) cs = takeBytes n cs := by
  by_cases h : n ≤ byteSize cs
  · rw [Nat.min_eq_left h]
  · rw [Nat.min_eq_right (by omega), takeBytes_of_le (Nat.le_refl _), takeBytes_of_le (by omega)]

theorem floorBoundary_eq (cs : List Char) (n : Nat) :
    floorBoundary cs n = byteSize (takeBytes n cs) := by
  induction n with
  | zero => rw [takeBytes_zero]; rfl
  | succ n ih =>
    rw [floorBoundary]
    split
    · exact (beq_iff_eq.mp ‹_›).symm
    · -- Without a boundary at `n + 1` the cut there is the one at `n`.
      have hle := byteSize_takeBytes_le (n + 1) cs
      have hne : byteSize (takeBytes (n + 1) cs) ≠ n + 1 := fun heq => ‹¬ _› (beq_iff_eq.mpr heq)
      have hcut := takeBytes_takeBytes (show n ≤ n + 1 by omega) cs
      rw [takeBytes_of_le (by omega)] at hcut
      rw [ih, hcut]

end Floor

section Table

theorem newlineEnds_append (n : Nat) (xs ys : List Char) :
    newlineEnds n (xs ++ ys) = newlineEnds n xs ++ newlineEnds (n + byteSize xs) ys := by
  induction xs generalizing n with
  | nil => rfl
  | cons c cs ih =>
    rw [List.cons_append, newlineEnds, newlineEnds, byteSize, ih, ih]
    by_cases hc : c = '\n'
    · subst hc
      rw [if_pos rfl, if_pos rfl, List.cons_append, ← Nat.add_assoc]
      rfl
    · rw [if_neg hc, if_neg hc, Nat.add_assoc]

theorem length_newlineEnds (n : Nat) (cs : List Char) :
    (newlineEnds n cs).length = cs.count '\n' := by
  induction cs generalizing n with
  | nil => rfl
  | cons c cs ih =>
    rw [newlineEnds]
    by_cases hc : c = '\n'
    · rw [if_pos hc, hc, List.length_cons, List.count_cons_self, ih]
    · rw [if_neg hc, List.count_cons_of_ne hc, ih]

theorem newlineEnds_of_not_mem {cs : List Char} (h : '\n' ∉ cs) (n : Nat) :
    newlineEnds n cs = [] :=
  List.eq_nil_of_length_eq_zero ((length_newlineEnds n cs).trans (List.count_eq_zero.mpr h))

theorem mem_newlineEnds {cs : List Char} {m n : Nat} (h : m ∈ newlineEnds n cs) :
    n < m ∧ m ≤ n + byteSize cs := by
  induction cs generalizing n with
  | nil => cases h
  | cons c cs ih =>
    rw [newlineEnds] at h
    have hpos := c.utf8Size_pos
    rw [byteSize]
    split at h
    · rcases List.mem_cons.mp h with rfl | h
      · omega
      · have := ih h
        omega
    · have := ih h
      omega

end Table

section Rows

variable {cs above row below part : List Char}

/-- The text has the row with what stands above and below it. -/
structure IsRow (cs above row below : List Char) : Prop where
  parts : cs = above ++ (row ++ below)
  opened : above = [] ∨ ∃ as, above = as ++ ['\n']
  inline : '\n' ∉ row
  closed : below = [] ∨ ∃ bs, below = '\n' :: bs

theorem exists_above (cs : List Char) :
    ∃ above, cs = above ++ lastRow cs ∧ (above = [] ∨ ∃ as, above = as ++ ['\n']) := by
  induction cs using List.reverseRecOn with
  | nil => exact ⟨[], rfl, Or.inl rfl⟩
  | append_singleton cs c ih =>
    rw [lastRow_concat]
    by_cases hc : c = '\n'
    · exact ⟨cs ++ [c], by rw [if_pos hc, List.append_nil], Or.inr ⟨cs, by rw [hc]⟩⟩
    · obtain ⟨above, habove, hopened⟩ := ih
      exact ⟨above, by rw [if_neg hc, ← List.append_assoc, ← habove], hopened⟩

theorem exists_isRow_at (before after : List Char) : ∃ above rest below,
    IsRow (before ++ after) above (lastRow before ++ rest) below ∧
      before = above ++ lastRow before := by
  obtain ⟨above, habove, hopened⟩ := exists_above before
  have hafter := List.takeWhile_append_dropWhile (p := (· ≠ '\n')) (l := after)
  refine ⟨above, after.takeWhile (· ≠ '\n'), after.dropWhile (· ≠ '\n'),
    ⟨?_, hopened, ?_, ?_⟩, habove⟩
  · rw [List.append_assoc, hafter, ← List.append_assoc, ← habove]
  · rw [List.mem_append, not_or]
    refine ⟨newline_not_mem_lastRow before, fun hmem => ?_⟩
    have hpass := List.all_eq_true.mp List.all_takeWhile _ hmem
    simp at hpass
  · cases hrest : after.dropWhile (· ≠ '\n') with
    | nil => exact Or.inl rfl
    | cons c bs =>
      have hstop := List.head?_dropWhile_not (· ≠ '\n') after
      rw [hrest] at hstop
      obtain rfl : c = '\n' := by simpa using hstop
      exact Or.inr ⟨bs, rfl⟩

namespace IsRow

theorem behind_part (h : IsRow cs above row below) (hpart : part <+: row) :
    Position.behind (above ++ part) = ⟨above.count '\n', unitCount part⟩ := by
  have hinline : '\n' ∉ part := fun hmem => h.inline (hpart.subset hmem)
  have hcount : part.count '\n' = 0 := List.count_eq_zero.mpr hinline
  have hlast : lastRow (above ++ part) = part := by
    have hpass : ∀ c ∈ part.reverse, decide (c ≠ '\n') = true := by
      intro c hc
      have hne : c ≠ '\n' := fun heq => hinline (heq ▸ List.mem_reverse.mp hc)
      simpa using hne
    rw [lastRow, List.reverse_append, List.takeWhile_append_of_pos hpass]
    rcases h.opened with rfl | ⟨as, rfl⟩ <;> simp
  rw [behind_eq, List.count_append, hcount, hlast, Nat.add_zero]

variable {d : Document}

theorem lineStart (h : IsRow d.text above row below) :
    d.lineStart? (above.count '\n') = some (byteSize above) := by
  rw [Document.lineStart?, Document.lineStarts, h.parts]
  rcases h.opened with rfl | ⟨as, rfl⟩
  · rfl
  · have hends : newlineEnds 0 (as ++ ['\n'] ++ (row ++ below)) = newlineEnds 0 as ++
        (byteSize as + 1) :: newlineEnds (byteSize as + 1) (row ++ below) := by
      rw [List.append_assoc, newlineEnds_append, Nat.zero_add]
      rfl
    rw [hends, List.count_append, List.count_singleton_self, List.getElem?_cons_succ,
      ← length_newlineEnds 0 as, List.getElem?_append_right (Nat.le_refl _), Nat.sub_self,
      byteSize_append]
    rfl

theorem lineStop (h : IsRow d.text above row below) :
    d.lineStop (above.count '\n') = byteSize above + byteSize row := by
  have hnext : d.lineStart? (above.count '\n' + 1) =
      (newlineEnds (byteSize above + byteSize row) below).head? := by
    rw [Document.lineStart?, Document.lineStarts, h.parts, List.getElem?_cons_succ,
      newlineEnds_append, newlineEnds_append, newlineEnds_of_not_mem h.inline, List.nil_append,
      ← length_newlineEnds 0 above, List.getElem?_append_right (Nat.le_refl _), Nat.sub_self,
      Nat.zero_add, List.head?_eq_getElem?]
  rw [Document.lineStop, hnext]
  rcases h.closed with rfl | ⟨bs, rfl⟩
  · rw [h.parts, List.append_nil, byteSize_append]
    rfl
  · rfl

theorem holds (h : IsRow d.text above row below) :
    Holds d.text ⟨byteSize above, d.lineStop (above.count '\n')⟩ row :=
  ⟨above, below, by rw [h.parts, List.append_assoc], by rw [h.lineStop]⟩

theorem offsetAt_eq (h : IsRow d.text above row below) (column : Nat) :
    d.offsetAt ⟨above.count '\n', column⟩ = byteSize above + columnBytes column row := by
  rw [Document.offsetAt, h.lineStart]
  change _ + columnBytes _ (slice d.text ⟨byteSize above, d.lineStop (above.count '\n')⟩) = _
  rw [h.holds.slice_eq]

end IsRow

theorem columnBytes_cons (c : Char) (row : List Char) (n : Nat) :
    columnBytes (units c + n) (c::row) = c.utf8Size + columnBytes n row := by
  obtain ⟨k, hk⟩ : ∃ k, units c + n = k + 1 := ⟨units c + n - 1, by have := units_pos c; omega⟩
  have hn : k + 1 - units c = n := by omega
  rw [hk, columnBytes, hn]

theorem columnBytes_unitCount (part rest : List Char) :
    columnBytes (unitCount part) (part ++ rest) = byteSize part := by
  induction part with
  | nil => cases rest <;> rfl
  | cons c cs ih => rw [List.cons_append, unitCount, columnBytes_cons, ih, byteSize]

end Rows

namespace Document

theorem lineAt_byteSize {d : Document} {before after : List Char} (h : d.text = before ++ after) :
    d.lineAt (byteSize before) = before.count '\n' := by
  have htable : d.lineStarts =
      (0 :: newlineEnds 0 before) ++ newlineEnds (byteSize before) after := by
    rw [lineStarts, h, newlineEnds_append, Nat.zero_add, List.cons_append]
  have hpass : ∀ m ∈ 0 :: newlineEnds 0 before, decide (m ≤ byteSize before) = true := by
    intro m hm
    rcases List.mem_cons.mp hm with rfl | hm
    · exact decide_eq_true (Nat.zero_le _)
    · have := (mem_newlineEnds hm).2
      exact decide_eq_true (by omega)
  have hstop : (newlineEnds (byteSize before) after).takeWhile (· ≤ byteSize before) = [] := by
    cases hrest : newlineEnds (byteSize before) after with
    | nil => rfl
    | cons m ms =>
      have hm : m ∈ newlineEnds (byteSize before) after := hrest ▸ List.mem_cons_self
      exact List.takeWhile_cons_of_neg (by have := (mem_newlineEnds hm).1; simpa using this)
  rw [lineAt, htable, List.takeWhile_append_of_pos hpass, hstop, List.append_nil, List.length_cons,
    length_newlineEnds, Nat.add_sub_cancel]

/-- The table resolves an offset to where walking up to it leads. -/
theorem positionAt_eq (d : Document) (n : Nat) :
    d.positionAt n = Position.behind (takeBytes n d.text) := by
  have hcut := takeBytes_append_dropBytes n d.text
  have hfloor : floorBoundary d.text (min n (byteSize d.text)) = byteSize (takeBytes n d.text) := by
    rw [floorBoundary_eq, takeBytes_min]
  generalize takeBytes n d.text = before at hcut hfloor ⊢
  generalize dropBytes n d.text = after at hcut
  obtain ⟨above, rest, below, hrow, habove⟩ := exists_isRow_at before after
  rw [hcut] at hrow
  have hcount : before.count '\n' = above.count '\n' := by
    conv_lhs => rw [habove, List.count_append, List.count_eq_zero.mpr (newline_not_mem_lastRow _)]
    exact Nat.add_zero _
  have hstart : d.lineStarts.getD (before.count '\n') 0 = byteSize above := by
    have hget : d.lineStarts[above.count '\n']? = some (byteSize above) := hrow.lineStart
    rw [List.getD_eq_getElem?_getD, hcount, hget, Option.getD_some]
  have hpart : Holds d.text ⟨byteSize above, byteSize before⟩ (lastRow before) :=
    ⟨above, after, by rw [← habove, hcut], by rw [← byteSize_append, ← habove]⟩
  rw [positionAt, hfloor, lineAt_byteSize hcut.symm, hstart, hpart.slice_eq, behind_eq]

theorem offsetAt_positionAt (d : Document) {n : Nat} (h : isBoundary d.text n = true) :
    d.offsetAt (d.positionAt n) = n := by
  obtain ⟨before, after, hd, rfl⟩ := isBoundary_iff.mp h
  obtain ⟨above, rest, below, hrow, habove⟩ := exists_isRow_at before after
  rw [← hd] at hrow
  rw [positionAt_eq, hd, takeBytes_byteSize_append, habove,
    hrow.behind_part (List.prefix_append _ _), hrow.offsetAt_eq, columnBytes_unitCount,
    byteSize_append]

theorem positionAt_append_newline (xs ys : List Char) {n : Nat} (h : 0 < n) :
    (Document.mk (xs ++ '\n' :: ys)).positionAt (byteSize xs + n) =
      ((Document.mk ('\n' :: ys)).positionAt n).down (xs.count '\n') := by
  have hn : ('\n' : Char).utf8Size ≤ n := h
  rw [positionAt_eq, positionAt_eq]
  simp only [takeBytes_append, takeBytes, if_pos hn]
  exact behind_append_newline xs _

end Document

end SlideDirectives.Text
