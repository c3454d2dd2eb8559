import SlideDirectives.Proofs.Text.Inverse

/-!
# Positions in the order of offsets

Lines and columns compare as the bytes do that they stand for. An offset counts
as the last boundary up to it and a position as the boundary that it resolves
to, so neither way back or forth ever turns the order around. Whether a range
holds a position can be seen from the bytes alone.
-/

set_option autoImplicit false

namespace SlideDirectives.Text

namespace Position

variable {p q r : Position}

theorem le_iff : p.le q = true ↔ ¬ q.Before p := by
  simp only [le, Before, Bool.or_eq_true, Bool.and_eq_true, decide_eq_true_eq, beq_iff_eq]
  omega

theorem le_trans (hpq : p.le q = true) (hqr : q.le r = true) : p.le r = true := by
  rw [le_iff] at *
  unfold Before at *
  omega

theorem Before.of_le (hpq : p.le q = true) (hqr : q.Before r) : p.Before r := by
  rw [le_iff] at hpq
  unfold Before at *
  omega

theorem le_line (h : p.le q = true) : p.line ≤ q.line := by
  rw [le_iff] at h
  unfold Before at h
  omega

end Position

namespace Range

variable {p : Position}

theorem contains_later {r r' : Range} (h : r.stop.Before r'.start) (hr : r.contains p = true) :
    r'.contains p = false := by
  by_contra hr'
  rw [Bool.not_eq_false] at hr'
  simp only [contains, Bool.and_eq_true, Position.le_iff] at hr hr'
  unfold Position.Before at *
  omega

theorem length_at {α : Type} {range : α → Range} {xs : List α}
    (h : xs.Pairwise (fun x y => (range x).stop.Before (range y).start)) (p : Position) :
    (xs.filter (fun x => (range x).contains p)).length ≤ 1 := by
  induction xs with
  | nil => exact Nat.zero_le 1
  | cons x xs ih =>
    obtain ⟨hlater, hrest⟩ := List.pairwise_cons.mp h
    by_cases hx : (range x).contains p = true
    · have hnone : xs.filter (fun y => (range y).contains p) = [] := by
        rw [List.filter_eq_nil_iff]
        intro y hy hat
        rw [contains_later (hlater y hy) hx] at hat
        cases hat
      rw [List.filter_cons, if_pos hx, hnone]
      exact Nat.le_refl 1
    · rw [List.filter_cons, if_neg hx]
      exact ih hrest

end Range

theorem byteSize_takeBytes_mono {m n : Nat} (h : m ≤ n) (cs : List Char) :
    byteSize (takeBytes m cs) ≤ byteSize (takeBytes n cs) := by
  have hm := (isGreatest_takeBytes cs m).1
  have hmin := Nat.le_min.mp hm.2
  exact (isGreatest_takeBytes cs n).2 ⟨hm.1, Nat.le_min.mpr ⟨Nat.le_trans hmin.1 h, hmin.2⟩⟩

namespace Document

variable {d : Document} {m n line : Nat}

theorem before_iff_lt (hm : isBoundary d.text m = true) (hn : isBoundary d.text n = true) :
    (d.positionAt m).Before (d.positionAt n) ↔ m < n := by
  constructor
  · intro h
    by_contra hle
    by_cases heq : m = n
    · exact (heq ▸ h).irrefl
    · exact (h.trans (d.positionAt_before hn hm (by omega))).irrefl
  · exact d.positionAt_before hm hn

theorem le_iff_le (hm : isBoundary d.text m = true) (hn : isBoundary d.text n = true) :
    (d.positionAt m).le (d.positionAt n) = true ↔ m ≤ n := by
  rw [Position.le_iff, before_iff_lt hn hm, Nat.not_lt]

/-- An offset inside a character has the position of its start. -/
theorem positionAt_mono (d : Document) (h : m ≤ n) :
    (d.positionAt m).le (d.positionAt n) = true := by
  rw [d.positionAt_takeBytes m, d.positionAt_takeBytes n]
  apply (le_iff_le _ _).mpr (byteSize_takeBytes_mono h d.text)
  · exact (isGreatest_takeBytes d.text m).1.1
  · exact (isGreatest_takeBytes d.text n).1.1

theorem OnLine.line_positionAt (h : d.OnLine line n) : (d.positionAt n).line = line := by
  rw [positionAt_eq, line_behind, h.newlines]

theorem OnLine.le_end (hm : d.OnLine line m) (hn : d.EndsLine line n) : m ≤ n := by
  by_contra hlt
  have hcut := takeBytes_append_dropBytes n d.text
  have hsize : byteSize (takeBytes n d.text) = n := beq_iff_eq.mp hn.boundary
  rcases hn.behind with hnil | ⟨below, hbelow⟩
  · have hle := isBoundary_le hm.boundary
    rw [hnil, List.append_nil] at hcut
    rw [← hcut, hsize] at hle
    omega
  · rw [hbelow] at hcut
    have hnewlines := hn.newlines
    generalize takeBytes n d.text = before at hcut hsize hnewlines
    have hnext : byteSize (before ++ ['\n']) ≤ m := by
      apply isBoundary_next
      · exact hcut ▸ hm.boundary
      · omega
    have hthrough : takeBytes (byteSize (before ++ ['\n'])) d.text = before ++ ['\n'] := by
      rw [← hcut, List.append_cons before '\n' below, takeBytes_byteSize_append]
    have hcount := count_takeBytes_le (byteSize (before ++ ['\n'])) (takeBytes m d.text)
    rw [takeBytes_takeBytes hnext, hthrough, List.count_append, hnewlines, hm.newlines,
      List.count_singleton_self] at hcount
    omega

theorem onLine_offsetAt {p : Position} (h : p.line ≤ d.text.count '\n') :
    d.OnLine p.line (d.offsetAt p) := by
  rcases offsetAt_line h with hleast | ⟨-, hend⟩
  · exact hleast.1.1
  · exact hend.toOnLine

/-- A position further along its line, or on a later line, does not resolve to
an earlier boundary. -/
theorem offsetAt_mono (d : Document) {p q : Position} (h : p.le q = true) :
    d.offsetAt p ≤ d.offsetAt q := by
  have hline := Position.le_line h
  by_cases hq : q.line ≤ d.text.count '\n'
  · have honp : d.OnLine p.line (d.offsetAt p) := onLine_offsetAt (by omega)
    have honq : d.OnLine q.line (d.offsetAt q) := onLine_offsetAt hq
    by_cases hsame : p.line = q.line
    · rw [hsame] at honp
      rcases offsetAt_line hq with hleast | ⟨-, hend⟩
      · -- The boundary that `q` resolves to is one that `p` could resolve to.
        have hreach : p.le (d.positionAt (d.offsetAt q)) = true := Position.le_trans h hleast.1.2
        rcases offsetAt_line (d := d) (p := p) (by omega) with hfirst | ⟨hall, -⟩
        · exact hfirst.2 ⟨hsame ▸ honq, hreach⟩
        · exact absurd (hall _ (hsame ▸ honq)) (Position.le_iff.mp hreach)
      · exact honp.le_end hend
    · have hbefore : (d.positionAt (d.offsetAt p)).Before (d.positionAt (d.offsetAt q)) := by
        left
        rw [honp.line_positionAt, honq.line_positionAt]
        omega
      exact Nat.le_of_lt ((before_iff_lt honp.boundary honq.boundary).mp hbefore)
  · rw [offsetAt_past (Nat.lt_of_not_le hq)]
    exact isBoundary_le (d.isBoundary_offsetAt p)

theorem contains_eq_touches {s : Span} (hs : s.Fits d.text) (hn : isBoundary d.text n = true) :
    (d.rangeOf s).contains (d.positionAt n) = s.touches n := by
  rw [Bool.eq_iff_iff, Range.contains, Span.touches, Bool.and_eq_true, Bool.and_eq_true,
    decide_eq_true_eq, decide_eq_true_eq]
  exact and_congr (le_iff_le hs.startBoundary hn) (le_iff_le hn hs.stopBoundary)

/-- Positions are in the order of offsets, strictly where the offsets are
boundaries of characters, and offsets are in the order of positions, whatever
line and column these have. So at boundaries a range holds the positions of the
offsets that its span touches. -/
theorem offsets_in_order (d : Document) :
    (∀ m n, m ≤ n → (d.positionAt m).le (d.positionAt n) = true) ∧
      (∀ m n, isBoundary d.text m = true → isBoundary d.text n = true →
        ((d.positionAt m).Before (d.positionAt n) ↔ m < n)) ∧
      (∀ p q : Position, p.le q = true → d.offsetAt p ≤ d.offsetAt q) ∧
      ∀ (s : Span) (n : Nat), s.Fits d.text → isBoundary d.text n = true →
        (d.rangeOf s).contains (d.positionAt n) = s.touches n := by
  refine ⟨?_, ?_, ?_, ?_⟩
  · intro m n h
    exact d.positionAt_mono h
  · intro m n hm hn
    exact before_iff_lt hm hn
  · intro p q h
    exact d.offsetAt_mono h
  · intro s n hs hn
    exact contains_eq_touches hs hn

/-- Carriage returns, a character of two units, and columns past their lines. -/
theorem offsets_in_order_surrogates :
    let d : Document := ⟨"a\r\n😀é\nb".toList⟩
    let s : Span := ⟨1, 7⟩
    (d.positionAt 4).le (d.positionAt 6) = true ∧
      ((d.positionAt 3).Before (d.positionAt 7)) ∧
      d.offsetAt ⟨0, 9⟩ ≤ d.offsetAt ⟨1, 1⟩ ∧
      s.Fits d.text ∧
      (d.rangeOf s).contains (d.positionAt 7) = true ∧
      (d.rangeOf s).contains (d.positionAt 9) = false := by
  intro d s
  have hs : s.Fits d.text := by decide
  obtain ⟨hmono, hstrict, hback, htouches⟩ := offsets_in_order d
  refine ⟨hmono 4 6 (by decide), ?_, hback _ _ (by decide), hs, ?_, ?_⟩
  · exact (hstrict 3 7 (by decide) (by decide)).mpr (by decide)
  · rw [htouches s 7 hs (by decide)]
    decide
  · rw [htouches s 9 hs (by decide)]
    decide

end Document

end SlideDirectives.Text
