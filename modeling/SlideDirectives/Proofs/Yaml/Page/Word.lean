import SlideDirectives.Proofs.Text.Trim
import SlideDirectives.Proofs.Yaml.Page.Row
import SlideDirectives.Yaml.Token.Scanner

/-!
# The characters of a page

Keys are made of characters that mean nothing else to any reader of the page.
All characters of keys and comments are printable and end no line.
-/

set_option autoImplicit false

namespace SlideDirectives.Yaml.Page

open Text

/-- Every character of a key and of a plain value but the space. -/
def isWord (c : Char) : Bool :=
  isValueChar c || c == '$'

theorem ne_of_eq {p : Char → Bool} {c d : Char} (hc : p c = true) (hd : p d = false) : c ≠ d := by
  rintro rfl
  rw [hc] at hd
  cases hd

theorem beq_of_eq {p : Char → Bool} {c d : Char} (hc : p c = true) (hd : p d = false) :
    (c == d) = false :=
  beq_eq_false_iff_ne.mpr (ne_of_eq hc hd)

theorem contains_keyStart {c : Char} {ds : List Char} (h : isKeyStart c = true)
    (hds : ds.all (fun d => !isKeyStart d) = true) : ds.contains c = false := by
  rw [Bool.eq_false_iff]
  intro hmem
  have hc := List.all_eq_true.mp hds c (List.contains_iff_mem.mp hmem)
  rw [h] at hc
  cases hc

theorem isWord_of_isKeyStart {c : Char} (h : isKeyStart c = true) : isWord c = true := by
  simp only [isKeyStart, Bool.or_eq_true] at h
  rcases h with (h | h) | h <;> simp [isWord, isValueChar, Char.isAlphanum, h]

theorem isWord_of_isKeyChar {c : Char} (h : isKeyChar c = true) : isWord c = true := by
  simp only [isKeyChar, Bool.or_eq_true] at h
  rcases h with h | h <;> simp [isWord, isValueChar, h]

theorem toNat_of_isAlpha {c : Char} (h : c.isAlpha = true) :
    (65 ≤ c.toNat ∧ c.toNat ≤ 90) ∨ (97 ≤ c.toNat ∧ c.toNat ≤ 122) := by
  have hcase : c.isUpper = true ∨ c.isLower = true := (Bool.or_eq_true _ _).mp h
  rcases hcase with hupper | hlower
  · have hrange : 'A'.val ≤ c.val ∧ c.val ≤ 'Z'.val := of_decide_eq_true hupper
    exact Or.inl hrange
  · obtain ⟨hlow, hhigh⟩ := (Bool.and_eq_true _ _).mp hlower
    exact Or.inr ⟨of_decide_eq_true hlow, of_decide_eq_true hhigh⟩

theorem toNat_of_isDigit {c : Char} (h : c.isDigit = true) : 48 ≤ c.toNat ∧ c.toNat ≤ 57 := by
  obtain ⟨hlow, hhigh⟩ := (Bool.and_eq_true _ _).mp h
  exact ⟨of_decide_eq_true hlow, of_decide_eq_true hhigh⟩

theorem toNat_of_isWord {c : Char} (h : isWord c = true) : 0x21 ≤ c.toNat ∧ c.toNat ≤ 0x7E := by
  simp only [isWord, isValueChar, Char.isAlphanum, Bool.or_eq_true, beq_iff_eq] at h
  rcases h with (((((h | h) | rfl) | rfl) | rfl) | rfl) | rfl
  · have halpha := toNat_of_isAlpha h
    omega
  · have hdigit := toNat_of_isDigit h
    omega
  all_goals decide

theorem isBlank_of_isWord {c : Char} (h : isWord c = true) : isBlank c = false := by
  obtain ⟨hlow, hhigh⟩ := toNat_of_isWord h
  rw [isBlank, Bool.eq_false_iff]
  intro hblank
  have hcode := List.contains_iff_mem.mp hblank
  simp only [blankCodes, List.mem_cons, List.not_mem_nil, or_false] at hcode
  omega

theorem isGraphic_of_isWord {c : Char} (h : isWord c = true) : isGraphic c = true := by
  obtain ⟨hlow, hhigh⟩ := toNat_of_isWord h
  simp only [isGraphic, Bool.and_eq_true, decide_eq_true_eq]
  omega

theorem isBreak_of_isGraphic {c : Char} (h : isGraphic c = true) : isBreak c = false := by
  simp only [isBreak, Bool.or_eq_false_iff]
  exact ⟨⟨⟨⟨beq_of_eq h rfl, beq_of_eq h rfl⟩, beq_of_eq h rfl⟩, beq_of_eq h rfl⟩, beq_of_eq h rfl⟩

theorem isGap_of_isWord {c : Char} (h : isWord c = true) : isGap c = false := by
  simp only [isGap, Bool.or_eq_false_iff]
  exact ⟨beq_of_eq h rfl, beq_of_eq h rfl⟩

theorem isPrintable_of_isGraphic {c : Char} (h : isGraphic c = true) : isPrintable c = true := by
  simp only [isGraphic, Bool.and_eq_true, decide_eq_true_eq] at h
  simp [isPrintable, h]

theorem isKey_cons {cs : List Char} (h : isKey cs = true) :
    ∃ c rest, cs = c::rest ∧ isKeyStart c = true ∧ cs.all isWord = true := by
  cases cs with
  | nil => cases h
  | cons c rest =>
    obtain ⟨hstart, hrest⟩ := Bool.and_eq_true_iff.mp h
    refine ⟨c, rest, rfl, hstart, ?_⟩
    rw [List.all_cons, isWord_of_isKeyStart hstart, Bool.true_and, List.all_eq_true]
    exact fun d hd => isWord_of_isKeyChar (List.all_eq_true.mp hrest d hd)

theorem hashChars_graphic (note : Option Note) : (hashChars note).all isGraphic = true := by
  cases note with
  | none => rfl
  | some n =>
    rw [hashChars, List.all_cons, n.graphic]
    rfl

theorem noteChars_graphic (note : Option Note) : (noteChars note).all isGraphic = true := by
  cases note with
  | none => rfl
  | some n =>
    rw [noteChars, List.all_cons, List.all_cons, n.graphic]
    rfl

theorem Key.isWord (k : Key) : k.chars.all isWord = true := by
  obtain ⟨c, rest, -, -, hall⟩ := isKey_cons k.wellFormed
  exact hall

end SlideDirectives.Yaml.Page
