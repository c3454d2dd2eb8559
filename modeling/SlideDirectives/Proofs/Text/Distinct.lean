import Mathlib.Data.Char
import Mathlib.Data.List.Lex
import Mathlib.Data.List.Pairwise
import Mathlib.Data.List.Perm.Basic
import SlideDirectives.Text.Basic

/-!
# Sets of texts

Texts without repetitions are kept in the lexicographic order of their
characters, so a set of texts is kept as one list only, however it was given.
-/

set_option autoImplicit false

namespace SlideDirectives.Text

theorem compare_toNat_lt {a b : Char} : compare a.toNat b.toNat = .lt ↔ a < b :=
  Nat.compare_eq_lt

theorem compare_toNat_eq {a b : Char} : compare a.toNat b.toNat = .eq ↔ a = b :=
  Nat.compare_eq_eq.trans Char.toNat_inj

theorem order_eq_lt {t u : List Char} : order t u = .lt ↔ t < u := by
  induction t generalizing u with
  | nil => cases u <;> simp [order]
  | cons a t ih =>
    cases u with
    | nil => simp [order]
    | cons b u =>
      rw [order, Ordering.then_eq_lt, compare_toNat_lt, compare_toNat_eq, ih,
        List.cons_lt_cons_iff]

theorem order_eq_eq {t u : List Char} : order t u = .eq ↔ t = u := by
  induction t generalizing u with
  | nil => cases u <;> simp [order]
  | cons a t ih =>
    cases u with
    | nil => simp [order]
    | cons b u => rw [order, Ordering.then_eq_eq, compare_toNat_eq, ih, List.cons.injEq]

theorem order_eq_gt {t u : List Char} (h : order t u = .gt) : u < t := by
  rcases lt_trichotomy t u with hlt | rfl | hlt
  · rw [order_eq_lt.mpr hlt] at h
    cases h
  · rw [order_eq_eq.mpr rfl] at h
    cases h
  · exact hlt

theorem mem_insertDistinct {t u : List Char} {us : List (List Char)} :
    u ∈ insertDistinct t us ↔ u = t ∨ u ∈ us := by
  induction us with
  | nil => simp [insertDistinct]
  | cons x us ih =>
    rw [insertDistinct]
    cases hx : order t x with
    | lt => exact List.mem_cons
    | eq =>
      obtain rfl := order_eq_eq.mp hx
      simp
    | gt =>
      change u ∈ x :: insertDistinct t us ↔ _
      rw [List.mem_cons, ih, List.mem_cons, or_left_comm]

theorem insertDistinct_sorted {t : List Char} {us : List (List Char)} (h : us.Pairwise (· < ·)) :
    (insertDistinct t us).Pairwise (· < ·) := by
  induction us with
  | nil => exact List.pairwise_singleton _ _
  | cons x us ih =>
    obtain ⟨hx, hus⟩ := List.pairwise_cons.mp h
    rw [insertDistinct]
    cases horder : order t x with
    | lt =>
      have htx : t < x := order_eq_lt.mp horder
      refine List.Pairwise.cons (fun u hu => ?_) h
      rcases List.mem_cons.mp hu with rfl | hu
      · exact htx
      · exact htx.trans (hx u hu)
    | eq => exact h
    | gt =>
      refine List.Pairwise.cons (fun u hu => ?_) (ih hus)
      rcases mem_insertDistinct.mp hu with rfl | hu
      · exact order_eq_gt horder
      · exact hx u hu

theorem mem_distinct {t : List Char} {ts : List (List Char)} : t ∈ distinct ts ↔ t ∈ ts := by
  induction ts with
  | nil => rfl
  | cons u us ih =>
    change t ∈ insertDistinct u (distinct us) ↔ _
    rw [mem_insertDistinct, ih, List.mem_cons]

theorem distinct_sorted (ts : List (List Char)) : (distinct ts).Pairwise (· < ·) := by
  induction ts with
  | nil => exact List.Pairwise.nil
  | cons t ts ih => exact insertDistinct_sorted ih

/-- Lists make the same set if they have the same texts. -/
theorem distinct_eq_iff {ts us : List (List Char)} :
    distinct ts = distinct us ↔ ∀ t, t ∈ ts ↔ t ∈ us := by
  constructor
  · intro h t
    rw [← mem_distinct, h, mem_distinct]
  · intro h
    have hmem : ∀ t, t ∈ distinct ts ↔ t ∈ distinct us := by
      intro t
      rw [mem_distinct, mem_distinct, h]
    have hperm : (distinct ts).Perm (distinct us) :=
      (List.perm_ext_iff_of_nodup ((distinct_sorted ts).imp ne_of_lt)
        ((distinct_sorted us).imp ne_of_lt)).mpr hmem
    exact hperm.eq_of_pairwise (fun t u _ _ htu hut => absurd hut htu.not_gt)
      (distinct_sorted ts) (distinct_sorted us)

end SlideDirectives.Text
