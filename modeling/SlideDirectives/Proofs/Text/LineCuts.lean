import SlideDirectives.Proofs.Text.Inverse
import SlideDirectives.Proofs.Text.Utf8

/-!
# Lines cut out of a text

A position is resolved on the line that it is on, which stands between where
that line and the next one start. Cutting it out of the text never fails, as
both of these are boundaries.
-/

set_option autoImplicit false

namespace SlideDirectives.Text

section Rows

/-- The pieces between newlines, of which there is always one. -/
def rows : List Char → List (List Char)
  | [] => [[]]
  | c::cs =>
    if c = '\n' then [] :: rows cs
    else match rows cs with
      | [] => [[c]]
      | row::rest => (c::row) :: rest

theorem rows_ne_nil (cs : List Char) : rows cs ≠ [] := by
  cases cs with
  | nil => simp [rows]
  | cons c cs =>
    rw [rows]
    split
    · simp
    · split <;> simp

theorem flatMap_rows (cs : List Char) : (rows cs).flatMap (· ++ ['\n']) = cs ++ ['\n'] := by
  induction cs with
  | nil => rfl
  | cons c cs ih =>
    obtain ⟨row, rest, hrows⟩ := List.exists_cons_of_ne_nil (rows_ne_nil cs)
    rw [rows]
    by_cases hc : c = '\n'
    · rw [if_pos hc, List.flatMap_cons, ih, hc]
      rfl
    · rw [hrows, List.flatMap_cons] at ih
      rw [if_neg hc, hrows, List.flatMap_cons, List.cons_append, List.cons_append, ih]
      rfl

theorem newline_not_mem_rows (cs : List Char) : ∀ row ∈ rows cs, '\n' ∉ row := by
  induction cs with
  | nil => simp [rows]
  | cons c cs ih =>
    obtain ⟨row, rest, hrows⟩ := List.exists_cons_of_ne_nil (rows_ne_nil cs)
    rw [hrows, List.forall_mem_cons] at ih
    rw [rows]
    by_cases hc : c = '\n'
    · rw [if_pos hc, hrows, List.forall_mem_cons, List.forall_mem_cons]
      exact ⟨List.not_mem_nil, ih⟩
    · rw [if_neg hc, hrows, List.forall_mem_cons]
      refine ⟨?_, ih.2⟩
      rw [List.mem_cons, not_or]
      exact ⟨Ne.symm hc, ih.1⟩

theorem rows_of_not_mem {cs : List Char} (h : '\n' ∉ cs) : rows cs = [cs] := by
  induction cs with
  | nil => rfl
  | cons c cs ih =>
    rw [List.mem_cons, not_or] at h
    rw [rows, if_neg (Ne.symm h.1), ih h.2]

end Rows

namespace Document

variable (d : Document) (p : Position)

def offsetAtCut : Except Span Nat :=
  match d.lineStart? p.line with
  | some start =>
    (cut d.text ⟨start, d.lineStop p.line⟩).map (fun row => start + columnBytes p.character row)
  | none => .ok (byteSize d.text)

/-- A position always resolves, and to what it does without any cut. -/
theorem offsetAtCut_eq : d.offsetAtCut p = .ok (d.offsetAt p) := by
  by_cases h : p.line ≤ d.text.count '\n'
  · obtain ⟨above, row, below, hrow, hline⟩ := exists_isRow h
    have hstart : d.lineStart? p.line = some (byteSize above) := hline ▸ hrow.lineStart
    have hholds : Holds d.text ⟨byteSize above, d.lineStop p.line⟩ row := hline ▸ hrow.holds
    rw [offsetAtCut, offsetAt, hstart]
    change (cut d.text ⟨byteSize above, d.lineStop p.line⟩).map _ =
      .ok (_ + columnBytes _ (slice d.text ⟨byteSize above, d.lineStop p.line⟩))
    rw [cut_fits hholds.fits]
    rfl
  · have hpast : d.text.count '\n' < p.line := Nat.lt_of_not_le h
    rw [offsetAtCut, lineStart?_past hpast, offsetAt_past hpast]

end Document

end SlideDirectives.Text
