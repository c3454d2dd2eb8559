import SlideDirectives.Proofs.Text.Trim

/-!
# Overwriting a part of a text

Where a part is overwritten by one of the same size, the slices beside it stay
as they are. If neither part has a newline, the other lines stay as well.
-/

set_option autoImplicit false

namespace SlideDirectives.Text

def overwrite (cs : List Char) (s : Span) (part : List Char) : List Char :=
  takeBytes s.start cs ++ (part ++ dropBytes s.stop cs)

section Slices

theorem dropBytes_append_left {xs : List Char} {n : Nat} (h : n ≤ byteSize xs) (ys : List Char) :
    dropBytes n (xs ++ ys) = dropBytes n xs ++ ys := by
  have hall := takeBytes_append_dropBytes n (xs ++ ys)
  rw [takeBytes_append_left h] at hall
  have hxs := takeBytes_append_dropBytes n xs
  conv at hall => rhs; rw [← hxs, List.append_assoc]
  exact List.append_cancel_left hall

theorem byteSize_dropBytes_ge (n : Nat) (cs : List Char) :
    byteSize cs ≤ n + byteSize (dropBytes n cs) := by
  have hall := congrArg byteSize (takeBytes_append_dropBytes n cs)
  have htake := byteSize_takeBytes_le n cs
  rw [byteSize_append] at hall
  omega

theorem slice_append_left {xs : List Char} {s : Span} (h : s.stop ≤ byteSize xs) (ys : List Char) :
    slice (xs ++ ys) s = slice xs s := by
  rw [slice, slice, Span.size]
  by_cases hs : s.start ≤ s.stop
  · rw [dropBytes_append_left (Nat.le_trans hs h)]
    apply takeBytes_append_left
    have hrest := byteSize_dropBytes_ge s.start xs
    omega
  · have hzero : s.stop - s.start = 0 := by omega
    rw [hzero, takeBytes_zero, takeBytes_zero]

theorem slice_append_right {xs xs' : List Char} (hsize : byteSize xs = byteSize xs') {s : Span}
    (h : byteSize xs ≤ s.start) (ys : List Char) : slice (xs ++ ys) s = slice (xs' ++ ys) s := by
  have hstart : s.start = byteSize xs + (s.start - byteSize xs) := by omega
  rw [slice, slice, hstart, dropBytes_append, hsize, dropBytes_append]

theorem slice_split {cs : List Char} {a b c : Nat} (hb : isBoundary cs b = true) (hab : a ≤ b)
    (hbc : b ≤ c) (ha : isBoundary cs a = true) :
    slice cs ⟨a, c⟩ = slice cs ⟨a, b⟩ ++ slice cs ⟨b, c⟩ := by
  have hfits : Span.Fits ⟨a, b⟩ cs := Span.Fits.of_boundaries hab ha hb
  obtain ⟨before, after, hcs, hspan⟩ := hfits.holds
  generalize slice cs ⟨a, b⟩ = part at hcs hspan ⊢
  obtain ⟨rfl, rfl⟩ := Span.mk.inj hspan
  obtain ⟨n, rfl⟩ := Nat.exists_eq_add_of_le hbc
  have hsize : byteSize before + byteSize part + n - byteSize before = byteSize part + n := by omega
  have hrest : byteSize before + byteSize part + n - (byteSize before + byteSize part) = n := by omega
  rw [slice, slice, Span.size, Span.size, hsize, hrest, hcs, dropBytes_add (m := byteSize before),
    List.append_assoc, dropBytes_byteSize_append, takeBytes_append, dropBytes_byteSize_append]
  rw [List.append_assoc]
  exact isBoundary_byteSize before _

variable {cs part name : List Char} {s t : Span}

theorem overwrite_append (before part after name : List Char) :
    overwrite (before ++ (part ++ after)) ⟨byteSize before, byteSize before + byteSize part⟩ name =
      before ++ (name ++ after) := by
  rw [overwrite, takeBytes_byteSize_append, dropBytes_append, dropBytes_byteSize_append]

theorem Holds.slice_overwrite (h : Holds cs s part) (hsize : byteSize name = byteSize part)
    (ht : t.stop ≤ s.start ∨ s.stop ≤ t.start) : slice (overwrite cs s name) t = slice cs t := by
  obtain ⟨before, after, rfl, rfl⟩ := h
  rw [List.append_assoc, overwrite_append]
  rcases ht with ht | ht
  · rw [slice_append_left ht, slice_append_left ht]
  · rw [← List.append_assoc, ← List.append_assoc]
    apply slice_append_right
    · rw [byteSize_append, byteSize_append, hsize]
    · rw [byteSize_append, hsize]
      exact ht

end Slices

section Lines

theorem lines_newline {cs : List Char} (h : '\n' ∉ cs) (rest : List Char) :
    lines (cs ++ '\n' :: rest) = ⟨cs, true⟩ :: lines rest := by
  induction cs with
  | nil => rfl
  | cons c cs ih =>
    have hc : c ≠ '\n' := fun hc => h (hc ▸ List.mem_cons_self)
    rw [List.cons_append, lines, if_neg hc, ih (fun hcs => h (List.mem_cons_of_mem c hcs))]
    rfl

theorem lines_unended {cs : List Char} (h : '\n' ∉ cs) (hne : cs ≠ []) :
    lines cs = [⟨cs, false⟩] := by
  induction cs with
  | nil => exact absurd rfl hne
  | cons c cs ih =>
    have hc : c ≠ '\n' := fun hc => h (hc ▸ List.mem_cons_self)
    rw [lines, if_neg hc]
    cases cs with
    | nil => rfl
    | cons d cs =>
      rw [ih (fun hcs => h (List.mem_cons_of_mem c hcs)) (List.cons_ne_nil d cs)]
      rfl

/-- The line may stand before `later`: it is not empty, and nothing but the end
of the text takes the place of its newline. -/
structure Line.Before (l : Line) (later : List Line) : Prop where
  newline : '\n' ∉ l.content
  ended : l.ended = true ∨ later = [] ∧ l.content ≠ []

def IsCut : List Line → Prop
  | [] => True
  | l::ls => l.Before ls ∧ IsCut ls

theorem isCut_lines (cs : List Char) : IsCut (lines cs) := by
  induction cs with
  | nil => trivial
  | cons c cs ih =>
    rw [lines]
    split
    · exact ⟨⟨List.not_mem_nil, Or.inl rfl⟩, ih⟩
    · rename_i hc
      cases hcs : lines cs with
      | nil => exact ⟨⟨by simpa using Ne.symm hc, Or.inr ⟨rfl, List.cons_ne_nil _ _⟩⟩, trivial⟩
      | cons l ls =>
        rw [hcs] at ih
        obtain ⟨⟨hnewline, hended⟩, hls⟩ := ih
        refine ⟨⟨?_, hended.imp_right fun h => ⟨h.1, List.cons_ne_nil _ _⟩⟩, hls⟩
        rw [List.mem_cons, not_or]
        exact ⟨Ne.symm hc, hnewline⟩

/-- A text is cut into lines in one way only. -/
theorem lines_flatMap {ls : List Line} (h : IsCut ls) : lines (ls.flatMap Line.chars) = ls := by
  induction ls with
  | nil => rfl
  | cons l ls ih =>
    obtain ⟨⟨hnewline, hended⟩, hls⟩ := h
    obtain ⟨content, ended⟩ := l
    rw [List.flatMap_cons, Line.chars]
    cases ended with
    | true =>
      rw [if_pos rfl, List.append_assoc]
      exact (lines_newline hnewline _).trans (congrArg _ (ih hls))
    | false =>
      rcases hended with h | ⟨rfl, hne⟩
      · cases h
      · rw [if_neg Bool.false_ne_true, List.flatMap_nil, List.append_nil]
        exact lines_unended hnewline hne

theorem IsCut.newline_not_mem {ls : List Line} (h : IsCut ls) {l : Line} (hl : l ∈ ls) :
    '\n' ∉ l.content := by
  induction ls with
  | nil => cases hl
  | cons k ls ih =>
    rcases List.mem_cons.mp hl with rfl | hl
    · exact h.1.newline
    · exact ih h.2 hl

theorem IsCut.replace {before after : List Line} {l l' : Line} (h : IsCut (before ++ l :: after))
    (hended : l'.ended = l.ended) (hnewline : '\n' ∉ l'.content) (hne : l'.content ≠ []) :
    IsCut (before ++ l' :: after) := by
  induction before with
  | nil =>
    obtain ⟨hl, hafter⟩ := h
    refine ⟨⟨hnewline, ?_⟩, hafter⟩
    rw [hended]
    exact hl.ended.imp_right fun h => ⟨h.1, hne⟩
  | cons k before ih =>
    obtain ⟨hk, hbefore⟩ := h
    refine ⟨⟨hk.newline, hk.ended.imp_right fun h => ?_⟩, ih hbefore⟩
    exact absurd h.1 (by simp)

end Lines

end SlideDirectives.Text
