import SlideDirectives.Proofs.Text.Distinct
import SlideDirectives.Proofs.Text.Utf8

/-!
# Texts found by halves

The order of texts by characters is that of their UTF-8 forms by bytes. In a
list that is in order, what is found by halving the list is what it holds.
-/

set_option autoImplicit false

namespace SlideDirectives.Text

theorem byte_lt_iff {m n : Nat} (hm : m < 256) (hn : n < 256) :
    UInt8.ofNat m < UInt8.ofNat n ↔ m < n := by
  rw [UInt8.lt_iff_toNat_lt, UInt8.toNat_ofNat', UInt8.toNat_ofNat', Nat.mod_eq_of_lt hm,
    Nat.mod_eq_of_lt hn]

theorem byte_eq_iff {m n : Nat} (hm : m < 256) (hn : n < 256) :
    UInt8.ofNat m = UInt8.ofNat n ↔ m = n := by
  rw [← UInt8.toNat_inj, UInt8.toNat_ofNat', UInt8.toNat_ofNat', Nat.mod_eq_of_lt hm,
    Nat.mod_eq_of_lt hn]

theorem toNat_lt_of_isValidChar (c : Char) : c.val.toNat < 1114112 := by
  have hvalid := c.valid
  unfold UInt32.isValidChar Nat.isValidChar at hvalid
  omega

/-- The form of a smaller character is smaller, whatever is behind it. -/
theorem encode_append_lt {c d : Char} (h : c < d) (xs ys : List UInt8) :
    String.utf8EncodeChar c ++ xs < String.utf8EncodeChar d ++ ys := by
  have hlt : c.val.toNat < d.val.toNat := h
  have hd : d.val.toNat < 1114112 := toNat_lt_of_isValidChar d
  unfold String.utf8EncodeChar
  generalize c.val.toNat = m at *
  generalize d.val.toNat = n at *
  -- A form is made of digits to the base 64 behind a first byte that grows with their number.
  have htwo (k : Nat) : k / 4096 = k / 64 / 64 := by omega
  have hthree (k : Nat) : k / 262144 = k / 64 / 64 / 64 := by omega
  simp only [htwo, hthree]
  split_ifs <;>
    simp (disch := omega) only [List.cons_append, List.nil_append, List.cons_lt_cons_iff,
      byte_lt_iff, byte_eq_iff] <;>
    omega

theorem bytes_lt {t u : List Char} (h : t < u) : bytes t < bytes u := by
  induction t generalizing u with
  | nil =>
    cases u with
    | nil => exact absurd h (List.lt_irrefl [])
    | cons d u =>
      obtain ⟨lead, rest, hd, -, -⟩ := exists_encode d
      rw [bytes_cons, hd]
      exact List.nil_lt_cons _ _
  | cons c t ih =>
    cases u with
    | nil => exact absurd h (List.not_lt_nil _)
    | cons d u =>
      rw [bytes_cons, bytes_cons]
      rcases List.cons_lt_cons_iff.mp h with hcd | ⟨rfl, htu⟩
      · exact encode_append_lt hcd _ _
      · exact List.append_left_lt (ih htu)

theorem order_bytes {t u : List Char} : order t u = .lt ↔ bytes t < bytes u := by
  rw [order_eq_lt]
  constructor
  · exact bytes_lt
  · intro h
    rcases lt_trichotomy t u with hlt | rfl | hgt
    · exact hlt
    · exact absurd h (List.lt_irrefl _)
    · exact absurd h (List.lt_asymm (bytes_lt hgt))

section Halves

variable {t : List Char} {us : List (List Char)} {half : Nat}

theorem mem_take_of_lt (h : us.Pairwise (· < ·)) (hhalf : half < us.length) (ht : t < us[half])
    (hmem : t ∈ us) : t ∈ us.take half := by
  rw [← List.take_append_drop half us] at hmem h
  rcases List.mem_append.mp hmem with hbefore | hbehind
  · exact hbefore
  · obtain ⟨-, hdrop, -⟩ := List.pairwise_append.mp h
    rw [List.drop_eq_getElem_cons hhalf] at hbehind hdrop
    rcases List.mem_cons.mp hbehind with rfl | hlater
    · exact absurd ht (lt_irrefl _)
    · exact absurd ht ((List.pairwise_cons.mp hdrop).1 t hlater).not_gt

theorem mem_drop_of_le (h : us.Pairwise (· < ·)) (hhalf : half < us.length) (ht : us[half] ≤ t)
    (hmem : t ∈ us) : t ∈ us.drop half := by
  have hmiddle : us[half] ∈ us.drop half := by
    rw [List.drop_eq_getElem_cons hhalf]
    exact List.mem_cons_self
  rw [← List.take_append_drop half us] at hmem h
  rcases List.mem_append.mp hmem with hbefore | hbehind
  · obtain ⟨-, -, hapart⟩ := List.pairwise_append.mp h
    exact absurd (hapart t hbefore _ hmiddle) ht.not_gt
  · exact hbehind

/-- In a list that is in order a text is found if and only if it is there. -/
theorem search_eq_true (h : us.Pairwise (· < ·)) : search t us = true ↔ t ∈ us := by
  fun_induction search t us with
  | case1 => simp
  | case2 u => rw [beq_iff_eq, order_eq_eq, List.mem_singleton, eq_comm]
  | case3 u v us all half hhalf hgt ih =>
    have hlength : half ≤ all.length - half := by omega
    rw [ih (h.sublist (List.take_sublist _ _))]
    constructor
    · exact fun hmem => List.mem_of_mem_take hmem
    · intro hmem
      have hbefore := mem_take_of_lt h hhalf (order_eq_gt hgt) hmem
      exact List.take_subset_take_left all hlength hbefore
  | case4 u v us all half hhalf hle ih =>
    have ht : all[half] ≤ t := by
      cases horder : order all[half] t with
      | lt => exact (order_eq_lt.mp horder).le
      | eq => exact (order_eq_eq.mp horder).le
      | gt => exact absurd horder hle
    rw [ih (h.sublist (List.drop_sublist _ _))]
    constructor
    · exact fun hmem => List.mem_of_mem_drop hmem
    · exact mem_drop_of_le h hhalf ht

end Halves

end SlideDirectives.Text
