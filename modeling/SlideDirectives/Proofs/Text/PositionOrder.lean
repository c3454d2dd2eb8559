import SlideDirectives.Proofs.Text.Resolve

/-!
# Positions in order

Each character moves the position behind it on, to the next line or further
along its own. So boundaries that follow each other have positions that do.
-/

set_option autoImplicit false

namespace SlideDirectives.Text

namespace Position

def Before (p q : Position) : Prop :=
  p.line < q.line ∨ p.line = q.line ∧ p.character < q.character

theorem Before.trans {p q r : Position} (h : p.Before q) (h' : q.Before r) : p.Before r := by
  unfold Before at *
  omega

theorem Before.irrefl {p : Position} (h : p.Before p) : False := by
  unfold Before at h
  omega

theorem compare_eq_lt {p q : Position} : compare p q = .lt ↔ p.Before q := by
  rw [compare, Ordering.then_eq_lt, Nat.compare_eq_lt, Nat.compare_eq_eq, Nat.compare_eq_lt]
  rfl

theorem before_after (p : Position) (c : Char) : p.Before (p.after c) := by
  rw [after]
  split
  · exact Or.inl (Nat.lt_succ_self _)
  · exact Or.inr ⟨rfl, Nat.lt_add_of_pos_right (units_pos c)⟩

theorem before_foldl_after (p : Position) {cs : List Char} (h : cs ≠ []) :
    p.Before (cs.foldl after p) := by
  induction cs generalizing p with
  | nil => exact absurd rfl h
  | cons c cs ih =>
    have hc := before_after p c
    rw [List.foldl_cons]
    cases cs with
    | nil => exact hc
    | cons d cs => exact hc.trans (ih (p.after c) (List.cons_ne_nil d cs))

end Position

theorem Document.positionAt_before (d : Document) {m n : Nat} (hm : isBoundary d.text m = true)
    (hn : isBoundary d.text n = true) (h : m < n) : (d.positionAt m).Before (d.positionAt n) := by
  have hfits : Span.Fits ⟨m, n⟩ d.text := Span.Fits.of_boundaries (Nat.le_of_lt h) hm hn
  obtain ⟨before, after, htext, hspan⟩ := hfits.holds
  generalize slice d.text ⟨m, n⟩ = part at htext hspan
  obtain ⟨rfl, rfl⟩ := Span.mk.inj hspan
  have hpart : part ≠ [] := by
    rintro rfl
    exact absurd h (Nat.lt_irrefl _)
  rw [positionAt_eq, positionAt_eq, htext, List.append_assoc, takeBytes_byteSize_append,
    ← List.append_assoc, ← byteSize_append, takeBytes_byteSize_append, Position.behind,
    Position.behind, List.foldl_append]
  exact Position.before_foldl_after _ hpart

end SlideDirectives.Text
