import Mathlib.Data.Prod.Lex
import Mathlib.Data.String.Basic
import SlideDirectives.Editor.Diagnostic
import SlideDirectives.Proofs.Text.PositionOrder

/-!
# Diagnostics in order

The order of diagnostics is the lexicographic one of start, end and code, so
sorting a list of diagnostics is no more than putting it in that order. If no
two have the same key, there is one way to do so.
-/

set_option autoImplicit false

namespace SlideDirectives.Text.Position

def key (p : Position) : ℕ ×ₗ ℕ :=
  toLex (p.line, p.character)

theorem key_lt {p q : Position} : p.key < q.key ↔ p.Before q :=
  Prod.Lex.toLex_lt_toLex

theorem key_inj {p q : Position} : p.key = q.key ↔ p = q := by
  obtain ⟨line, character⟩ := p
  obtain ⟨line', character'⟩ := q
  simp [key]

theorem compare_eq_eq {p q : Position} : compare p q = .eq ↔ p = q := by
  obtain ⟨line, character⟩ := p
  obtain ⟨line', character'⟩ := q
  rw [compare, Ordering.then_eq_eq, Nat.compare_eq_eq, Nat.compare_eq_eq, mk.injEq]

end SlideDirectives.Text.Position

namespace SlideDirectives.Editor

open Text

theorem then_ne_gt {a b : Ordering} : a.then b ≠ .gt ↔ a = .lt ∨ a = .eq ∧ b ≠ .gt := by
  cases a <;> simp [Ordering.then]

namespace Diagnostic

def sortKey (d : Diagnostic) : (ℕ ×ₗ ℕ) ×ₗ (ℕ ×ₗ ℕ) ×ₗ String :=
  toLex (d.range.start.key, toLex (d.range.stop.key, d.code))

theorem order_ne_gt {a b : Diagnostic} : order code a b ≠ .gt ↔ a.sortKey ≤ b.sortKey := by
  rw [order, then_ne_gt, then_ne_gt, Position.compare_eq_lt, Position.compare_eq_eq,
    Position.compare_eq_lt, Position.compare_eq_eq, compare_le_iff_le, sortKey, sortKey,
    Prod.Lex.toLex_le_toLex, Prod.Lex.toLex_le_toLex, Position.key_lt, Position.key_lt,
    Position.key_inj, Position.key_inj]

theorem code_injective : Function.Injective RuleName.code := by
  intro a b h
  cases a <;> cases b <;> first | rfl | exact absurd h (by decide)

theorem sortKey_eq {a b : Diagnostic} (h : a.sortKey = b.sortKey) :
    a.range.start = b.range.start ∧ a.rule = b.rule := by
  obtain ⟨hstart, hrest⟩ := Prod.ext_iff.mp (toLex.injective h)
  obtain ⟨-, hcode⟩ := Prod.ext_iff.mp (toLex.injective hrest)
  exact ⟨Position.key_inj.mp hstart, code_injective hcode⟩

theorem sort_perm (ds : List Diagnostic) : (sort ds).Perm ds :=
  List.mergeSort_perm ds _

theorem order_le {a b : Diagnostic} : (order code a b != .gt) = true ↔ a.sortKey ≤ b.sortKey := by
  rw [bne_iff_ne, order_ne_gt]

theorem order_trans (a b c : Diagnostic) (hab : (order code a b != .gt) = true)
    (hbc : (order code b c != .gt) = true) : (order code a c != .gt) = true := by
  rw [order_le] at *
  exact hab.trans hbc

theorem order_total (a b : Diagnostic) :
    ((order code a b != .gt) || (order code b a != .gt)) = true := by
  rw [Bool.or_eq_true, order_le, order_le]
  exact le_total a.sortKey b.sortKey

theorem sort_sorted (ds : List Diagnostic) :
    (sort ds).Pairwise (fun a b => a.sortKey ≤ b.sortKey) :=
  (List.pairwise_mergeSort order_trans order_total ds).imp fun hab => order_le.mp hab

theorem sort_eq_of_perm {ds ds' : List Diagnostic} (h : ds.Perm ds')
    (hkeys : ∀ a ∈ ds, ∀ b ∈ ds, a.sortKey = b.sortKey → a = b) : sort ds = sort ds' := by
  have hsorted : (sort ds).Perm (sort ds') :=
    (sort_perm ds).trans (h.trans (sort_perm ds').symm)
  refine hsorted.eq_of_pairwise ?_ (sort_sorted ds) (sort_sorted ds')
  intro a b ha hb hab hba
  have ha : a ∈ ds := (sort_perm ds).mem_iff.mp ha
  have hb : b ∈ ds := (h.mem_iff).mpr ((sort_perm ds').mem_iff.mp hb)
  exact hkeys a ha b hb (le_antisymm hab hba)

theorem sort_cons (d : Diagnostic) (ds : List Diagnostic) :
    ∃ before after, sort (d :: ds) = before ++ d :: after ∧ sort ds = before ++ after ∧
      (∀ a ∈ before, a.sortKey < d.sortKey) ∧ ∀ a ∈ after, d.sortKey ≤ a.sortKey := by
  obtain ⟨before, after, hcons, htail, hbefore⟩ := List.mergeSort_cons order_trans order_total d ds
  have hsorted := sort_sorted (d :: ds)
  rw [sort, sortOn, hcons, List.pairwise_append] at hsorted
  refine ⟨before, after, hcons, htail, fun a ha => ?_, (List.pairwise_cons.mp hsorted.2.1).1⟩
  have hlt := hbefore a ha
  rw [Bool.not_eq_true', ← Bool.not_eq_true, order_le] at hlt
  exact lt_of_not_ge hlt

/-- A list can be cut at a key in one way only. -/
theorem cut_unique {d : Diagnostic} {before after before' after' : List Diagnostic}
    (h : before ++ after = before' ++ after')
    (hbefore : ∀ a ∈ before, a.sortKey < d.sortKey) (hafter : ∀ a ∈ after, d.sortKey ≤ a.sortKey)
    (hbefore' : ∀ a ∈ before', a.sortKey < d.sortKey)
    (hafter' : ∀ a ∈ after', d.sortKey ≤ a.sortKey) : before = before' ∧ after = after' := by
  have hless : ∀ {xs ys : List Diagnostic}, (∀ a ∈ xs, a.sortKey < d.sortKey) →
      (∀ a ∈ ys, d.sortKey ≤ a.sortKey) →
      (xs ++ ys).filter (fun a => decide (a.sortKey < d.sortKey)) = xs := by
    intro xs ys hxs hys
    rw [List.filter_append, List.filter_eq_self.mpr fun a ha => decide_eq_true (hxs a ha),
      List.filter_eq_nil_iff.mpr fun a ha => by simpa using hys a ha, List.append_nil]
  have hsame : before = before' := by
    rw [← hless hbefore hafter, h, hless hbefore' hafter']
  subst hsame
  exact ⟨rfl, List.append_cancel_left h⟩

theorem sort_filter (keep : Diagnostic → Bool) (ds : List Diagnostic) :
    (sort ds).filter keep = sort (ds.filter keep) := by
  induction ds with
  | nil => simp [sort, sortOn]
  | cons d ds ih =>
    obtain ⟨before, after, hcons, htail, hbefore, hafter⟩ := sort_cons d ds
    rw [htail, List.filter_append] at ih
    rw [hcons, List.filter_append]
    cases hd : keep d with
    | false =>
      have hout : ¬ keep d = true := by simp [hd]
      rw [List.filter_cons_of_neg hout, List.filter_cons_of_neg hout, ih]
    | true =>
      obtain ⟨before', after', hcons', htail', hbefore', hafter'⟩ := sort_cons d (ds.filter keep)
      obtain ⟨rfl, rfl⟩ := cut_unique (htail'.symm.trans ih.symm) hbefore' hafter'
        (fun a ha => hbefore a (List.mem_filter.mp ha).1)
        (fun a ha => hafter a (List.mem_filter.mp ha).1)
      rw [List.filter_cons_of_pos hd, List.filter_cons_of_pos hd, hcons']

end Diagnostic

end SlideDirectives.Editor
