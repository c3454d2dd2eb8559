import SlideDirectives.Text.Bytes

/-!
# Spans that fit a text

A span fits a text if both of its ends are boundaries of characters. A part
of a text is then the slice under its span, and a span found inside a part is
moved by where that part starts.
-/

set_option autoImplicit false

namespace SlideDirectives.Text

theorem takeBytes_append (xs ys : List Char) (n : Nat) :
    takeBytes (byteSize xs + n) (xs ++ ys) = xs ++ takeBytes n ys := by
  induction xs with
  | nil => simp [byteSize]
  | cons c cs ih =>
    have hn : c.utf8Size + byteSize cs + n - c.utf8Size = byteSize cs + n := by omega
    simp only [byteSize, List.cons_append, takeBytes]
    rw [if_pos (by omega), hn, ih]

theorem dropBytes_append (xs ys : List Char) (n : Nat) :
    dropBytes (byteSize xs + n) (xs ++ ys) = dropBytes n ys := by
  have h := takeBytes_append_dropBytes (byteSize xs + n) (xs ++ ys)
  rw [takeBytes_append, List.append_assoc] at h
  have h' := takeBytes_append_dropBytes n ys
  exact List.append_cancel_left ((List.append_cancel_left h).trans h'.symm)

theorem dropBytes_zero (cs : List Char) : dropBytes 0 cs = cs :=
  dropBytes_byteSize_append [] cs

theorem takeBytes_takeBytes {m n : Nat} (h : m ≤ n) (cs : List Char) :
    takeBytes m (takeBytes n cs) = takeBytes m cs := by
  induction cs generalizing m n with
  | nil => rfl
  | cons c cs ih =>
    by_cases hm : c.utf8Size ≤ m
    · have hn : c.utf8Size ≤ n := Nat.le_trans hm h
      simp only [takeBytes, if_pos hm, if_pos hn]
      rw [ih (Nat.sub_le_sub_right h _)]
    · by_cases hn : c.utf8Size ≤ n
      · simp only [takeBytes, if_neg hm, if_pos hn]
      · simp only [takeBytes, if_neg hm, if_neg hn]

theorem takeBytes_append_left {xs : List Char} {n : Nat} (h : n ≤ byteSize xs) (ys : List Char) :
    takeBytes n (xs ++ ys) = takeBytes n xs := by
  rw [← takeBytes_takeBytes h, takeBytes_byteSize_append]

theorem isBoundary_iff {cs : List Char} {n : Nat} :
    isBoundary cs n = true ↔ ∃ before after, cs = before ++ after ∧ n = byteSize before := by
  constructor
  · intro h
    exact ⟨takeBytes n cs, dropBytes n cs, (takeBytes_append_dropBytes n cs).symm,
      (beq_iff_eq.mp h).symm⟩
  · rintro ⟨before, after, rfl, rfl⟩
    simp [isBoundary, takeBytes_byteSize_append]

theorem isBoundary_byteSize (before after : List Char) :
    isBoundary (before ++ after) (byteSize before) = true :=
  isBoundary_iff.mpr ⟨before, after, rfl, rfl⟩

theorem isBoundary_le {cs : List Char} {n : Nat} (h : isBoundary cs n = true) :
    n ≤ byteSize cs := by
  obtain ⟨before, after, rfl, rfl⟩ := isBoundary_iff.mp h
  simp [byteSize_append]

theorem isBoundary_zero (cs : List Char) : isBoundary cs 0 = true :=
  isBoundary_byteSize [] cs

theorem isBoundary_append {xs ys : List Char} {n : Nat} (h : isBoundary ys n = true) :
    isBoundary (xs ++ ys) (byteSize xs + n) = true := by
  obtain ⟨before, after, rfl, rfl⟩ := isBoundary_iff.mp h
  rw [← byteSize_append, ← List.append_assoc]
  exact isBoundary_byteSize _ _

theorem isBoundary_append_left {xs ys : List Char} {n : Nat} (h : isBoundary xs n = true) :
    isBoundary (xs ++ ys) n = true := by
  obtain ⟨before, after, rfl, rfl⟩ := isBoundary_iff.mp h
  rw [List.append_assoc]
  exact isBoundary_byteSize _ _

theorem isBoundary_next {xs ys : List Char} {c : Char} {n : Nat}
    (h : isBoundary (xs ++ c::ys) n = true) (hn : byteSize xs < n) :
    byteSize (xs ++ [c]) ≤ n := by
  obtain ⟨before, after, he, rfl⟩ := isBoundary_iff.mp h
  rcases List.append_eq_append_iff.mp he with ⟨t, rfl, ht⟩ | ⟨t, rfl, -⟩
  · cases t with
    | nil => simp at hn
    | cons d t =>
      obtain ⟨rfl, -⟩ := List.cons_eq_cons.mp ht
      simp only [byteSize_append, byteSize]
      omega
  · rw [byteSize_append] at hn
    omega

theorem eq_of_byteSize_eq {xs ys xs' ys' : List Char} (h : xs ++ ys = xs' ++ ys')
    (hs : byteSize xs = byteSize xs') : xs = xs' ∧ ys = ys' := by
  have hx : xs = xs' := by
    rw [← takeBytes_byteSize_append xs ys, h, hs, takeBytes_byteSize_append]
  subst hx
  exact ⟨rfl, List.append_cancel_left h⟩

theorem dropBytes_add {cs : List Char} {m : Nat} (h : isBoundary cs m = true) (n : Nat) :
    dropBytes (m + n) cs = dropBytes n (dropBytes m cs) := by
  obtain ⟨before, after, rfl, rfl⟩ := isBoundary_iff.mp h
  rw [dropBytes_append, dropBytes_byteSize_append]

theorem slice_shift {cs : List Char} {n : Nat} (h : isBoundary cs n = true) (s : Span) :
    slice cs (s.shift n) = slice (dropBytes n cs) s := by
  have hsize : (s.shift n).size = s.size := by simp only [Span.size, Span.shift]; omega
  rw [slice, slice, hsize, Span.shift_start, Nat.add_comm, dropBytes_add h]

/-- The text has `part` at the bytes of `s`. -/
def Holds (cs : List Char) (s : Span) (part : List Char) : Prop :=
  ∃ before after, cs = before ++ part ++ after ∧
    s = ⟨byteSize before, byteSize before + byteSize part⟩

/-- The span lies in the text and cuts no character. -/
structure Span.Fits (s : Span) (cs : List Char) : Prop where
  ordered : s.start ≤ s.stop
  bounded : s.stop ≤ byteSize cs
  startBoundary : isBoundary cs s.start = true
  stopBoundary : isBoundary cs s.stop = true

instance (s : Span) (cs : List Char) : Decidable (s.Fits cs) :=
  decidable_of_iff (s.start ≤ s.stop ∧ s.stop ≤ byteSize cs ∧ isBoundary cs s.start = true ∧
      isBoundary cs s.stop = true)
    ⟨fun h => ⟨h.1, h.2.1, h.2.2.1, h.2.2.2⟩, fun h => ⟨h.1, h.2, h.3, h.4⟩⟩

namespace Holds

variable {cs part sub : List Char} {s t : Span}

theorem slice_eq (h : Holds cs s part) : slice cs s = part := by
  obtain ⟨before, after, rfl, rfl⟩ := h
  have hsize : byteSize before + byteSize part - byteSize before = byteSize part := by omega
  rw [slice, Span.size, List.append_assoc, dropBytes_byteSize_append, hsize,
    takeBytes_byteSize_append]

theorem fits (h : Holds cs s part) : s.Fits cs := by
  obtain ⟨before, after, rfl, rfl⟩ := h
  refine ⟨by simp, by simp [byteSize_append], ?_, ?_⟩
  · rw [List.append_assoc]
    exact isBoundary_byteSize _ _
  · rw [← byteSize_append]
    exact isBoundary_byteSize _ _

theorem shift (h : Holds cs s part) (k : Holds part t sub) : Holds cs (t.shift s.start) sub := by
  obtain ⟨before, after, rfl, rfl⟩ := h
  obtain ⟨before', after', rfl, rfl⟩ := k
  refine ⟨before ++ before', after' ++ after, by simp, ?_⟩
  simp only [Span.shift, byteSize_append, Span.mk.injEq]
  omega

theorem append_left (h : Holds cs s part) (xs : List Char) :
    Holds (xs ++ cs) (s.shift (byteSize xs)) part := by
  obtain ⟨before, after, rfl, rfl⟩ := h
  refine ⟨xs ++ before, after, by simp, ?_⟩
  simp only [Span.shift, byteSize_append, Span.mk.injEq]
  omega

theorem append_right (h : Holds cs s part) (ys : List Char) : Holds (cs ++ ys) s part := by
  obtain ⟨before, after, rfl, rfl⟩ := h
  exact ⟨before, after ++ ys, by simp, rfl⟩

end Holds

namespace Span.Fits

variable {cs : List Char} {s t : Span}

theorem of_boundaries (h : s.start ≤ s.stop) (hs : isBoundary cs s.start = true)
    (ht : isBoundary cs s.stop = true) : s.Fits cs :=
  ⟨h, isBoundary_le ht, hs, ht⟩

theorem holds (h : s.Fits cs) : Holds cs s (slice cs s) := by
  obtain ⟨before, after, rfl, hb⟩ := isBoundary_iff.mp h.startBoundary
  obtain ⟨before', after', he, hb'⟩ := isBoundary_iff.mp h.stopBoundary
  have hle : byteSize before ≤ byteSize before' := by have := h.ordered; omega
  have htake : takeBytes (byteSize before') (before ++ after) = before' := by
    rw [he, takeBytes_byteSize_append]
  have hsplit : byteSize before' = byteSize before + (byteSize before' - byteSize before) := by
    omega
  rw [hsplit, takeBytes_append] at htake
  have hs : s = ⟨byteSize before, byteSize before'⟩ := by rw [← hb, ← hb']
  subst hs
  have hslice : slice (before ++ after) ⟨byteSize before, byteSize before'⟩ =
      takeBytes (byteSize before' - byteSize before) after := by
    rw [slice, Span.size, dropBytes_byteSize_append]
  rw [hslice]
  refine ⟨before, dropBytes (byteSize before' - byteSize before) after, ?_, ?_⟩
  · rw [List.append_assoc, takeBytes_append_dropBytes]
  · rw [← byteSize_append, htake]

theorem start_add_byteSize (h : s.Fits cs) : s.start + byteSize (slice cs s) = s.stop := by
  obtain ⟨before, after, -, hs⟩ := h.holds
  rw [congrArg Span.start hs, congrArg Span.stop hs]

theorem shift (h : s.Fits cs) (k : t.Fits (slice cs s)) : (t.shift s.start).Fits cs :=
  (h.holds.shift k.holds).fits

theorem of_append {xs ys : List Char} (h : s.Fits (xs ++ ys)) (hs : s.stop ≤ byteSize xs) :
    s.Fits xs := by
  have hstart := h.startBoundary
  have hstop := h.stopBoundary
  rw [isBoundary, takeBytes_append_left (Nat.le_trans h.ordered hs)] at hstart
  rw [isBoundary, takeBytes_append_left hs] at hstop
  exact of_boundaries h.ordered hstart hstop

theorem behind (xs : List Char) (h : s.Fits cs) : (s.shift (byteSize xs)).Fits (xs ++ cs) :=
  (h.holds.append_left xs).fits

end Span.Fits

end SlideDirectives.Text
