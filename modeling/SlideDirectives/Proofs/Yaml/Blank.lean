import Mathlib.Data.List.TakeWhile
import SlideDirectives.Proofs.Yaml.EntryScan
import SlideDirectives.Yaml.Outline

/-!
# Blank texts

Cleaning a text removes carriage returns only, so a text that is blank when it
is cleaned was blank before. No line of it opens an entry.
-/

set_option autoImplicit false

namespace SlideDirectives.Yaml.Outline

open Text

variable {source : List Char}

theorem mem_dropReturns {c : Char} {cs : List Char} (hc : c ∈ cs) (hreturn : c ≠ '\r') :
    c ∈ dropReturns cs := by
  fun_induction dropReturns cs with
  | case1 => exact hc
  | case2 cs ih =>
    simp only [List.mem_cons, hreturn, false_or] at hc ⊢
    exact hc.imp_right ih
  | case3 d cs _ ih =>
    rw [List.mem_cons] at hc ⊢
    exact hc.imp_right ih

theorem mem_clean {c : Char} {source : List Char} (hc : c ∈ source) (hreturn : c ≠ '\r') :
    c ∈ clean source := by
  have hmem := mem_dropReturns hc hreturn
  rw [clean]
  split
  · rename_i hlast
    have hne := List.ne_nil_of_mem hmem
    rw [List.getLast?_eq_some_getLast hne] at hlast
    rw [← List.dropLast_concat_getLast hne, Option.some.inj hlast] at hmem
    simpa [hreturn] using hmem
  · exact hmem

theorem keySpans_eq_nil {ls : List Line}
    (h : ∀ l ∈ ls, ∀ c ∈ Entry.scanned l, isBlank c = true) (start : Nat) :
    Entry.keySpans start ls = [] := by
  induction ls generalizing start with
  | nil => rfl
  | cons l ls ih =>
    have htrim : trim (Entry.scanned l) = [] := by
      rw [trim, trimStart, List.dropWhile_eq_nil_iff.mpr (h l List.mem_cons_self)]
      rfl
    have hrole : Entry.Role.ofLine (Entry.scanned l) = .idle := by
      rw [Entry.Role.ofLine, htrim]
      rfl
    rw [Entry.keySpans, hrole]
    exact ih (fun l' hl' => h l' (List.mem_cons_of_mem l hl')) _

theorem keySpans_blank (h : (trim (clean source)).isEmpty = true) :
    Entry.keySpans 0 (lines source) = [] := by
  apply keySpans_eq_nil
  intro l hl c hc
  have hmem : c ∈ source := by
    rw [← flatMap_chars_lines source]
    exact List.mem_flatMap.mpr ⟨l, hl, (Entry.scanned_isPrefix l).subset hc⟩
  cases hb : isBlank c with
  | true => rfl
  | false =>
    have hreturn : c ≠ '\r' := by
      rintro rfl
      exact absurd hb (by decide)
    have htrim := mem_trim (mem_clean hmem hreturn) hb
    rw [List.isEmpty_iff.mp h] at htrim
    cases htrim

theorem isEmpty_trim_of_mem {e : Entry} (he : e ∈ entries source) :
    (trim (clean source)).isEmpty = false := by
  apply eq_false_of_ne_true
  intro hblank
  have hkey := List.mem_map_of_mem (f := Entry.key) he
  rw [Entry.map_key_entries, keySpans_blank hblank] at hkey
  cases hkey

end SlideDirectives.Yaml.Outline
