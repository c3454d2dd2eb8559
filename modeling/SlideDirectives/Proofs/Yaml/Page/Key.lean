import SlideDirectives.Proofs.Yaml.Page.Word
import SlideDirectives.Yaml.Decode

/-!
# The keys of a page

A key is read whole from its line, and no number. It has the same value wherever
it is decoded.
-/

set_option autoImplicit false

namespace SlideDirectives.Yaml.Page

open Text

section Value

def wordValue (cs : List Char) : Yaml.Value :=
  if Decode.isNull cs then .null
  else match Decode.bool? cs with
    | some b => .bool b
    | none => .string cs

def Key.value (k : Key) : Yaml.Value :=
  wordValue k.chars

variable {c : Char} {cs : List Char}

theorem isDigit_keyStart (h : isKeyStart c = true) : c.isDigit = false := by
  rw [Bool.eq_false_iff]
  intro hdigit
  have hcode := toNat_of_isDigit hdigit
  simp only [isKeyStart, Bool.or_eq_true, beq_iff_eq] at h
  rcases h with (h | rfl) | rfl
  · have halpha := toNat_of_isAlpha h
    omega
  · cases hdigit
  · cases hdigit

theorem digit?_keyStart (h : isKeyStart c = true) : Number.digit? 10 c = none := by
  rw [Number.digit?, isDigit_keyStart h]
  by_cases hlower : c.isLower = true
  · simp [hlower]
  · by_cases hupper : c.isUpper = true
    · simp [hlower, hupper]
    · simp [hlower, hupper]

theorem whole?_keyStart (h : isKeyStart c = true) : Number.whole? (c::cs) = none := by
  have hminus : c ≠ '-' := ne_of_eq h rfl
  have hplus : c ≠ '+' := ne_of_eq h rfl
  have hzero : c ≠ '0' := ne_of_eq h rfl
  have hradix : Number.radix? (c::cs) = none := by
    simp [Number.radix?, hzero]
  simp [Number.whole?, hminus, hplus, Number.isSigned, Number.magnitude?, Number.marked?, hradix,
    Number.digits?, digit?_keyStart h]

theorem hasLeadingZero_keyStart (h : isKeyStart c = true) :
    Number.hasLeadingZero (c::cs) = false := by
  have hminus : c ≠ '-' := ne_of_eq h rfl
  have hplus : c ≠ '+' := ne_of_eq h rfl
  have hzero : c ≠ '0' := ne_of_eq h rfl
  simp [Number.hasLeadingZero, Number.unsigned, Number.isSigned, hminus, hplus, hzero]

theorem real?_keyStart (h : isKeyStart c = true) : Number.real? (c::cs) = none := by
  have hminus : c ≠ '-' := ne_of_eq h rfl
  have hplus : c ≠ '+' := ne_of_eq h rfl
  have hdot : c ≠ '.' := ne_of_eq h rfl
  simp [Number.real?, hminus, hplus, hdot, Number.infinities, Number.notNumbers, Number.decimal?,
    Number.unsigned, Number.isSigned, isDigit_keyStart h]

theorem plainValue_keyStart (h : isKeyStart c = true) :
    Decode.plainValue? (c::cs) = some (wordValue (c::cs)) := by
  rw [Decode.plainValue?, wordValue, whole?_keyStart h, hasLeadingZero_keyStart h,
    real?_keyStart h]
  by_cases hnull : Decode.isNull (c::cs) = true
  · rw [if_pos hnull, if_pos hnull]
  · rw [if_neg hnull, if_neg hnull]
    cases Decode.bool? (c::cs) <;> rfl

theorem plainValue_key (k : Key) : Decode.plainValue? k.chars = some k.value := by
  obtain ⟨c, rest, hcs, hstart, -⟩ := isKey_cons k.wellFormed
  rw [Key.value, hcs]
  exact plainValue_keyStart hstart

theorem Key.same_self (k : Key) : k.value.same k.value = true := by
  rw [Key.value, wordValue]
  split
  · rfl
  · split
    · exact beq_self_eq_true _
    · exact beq_self_eq_true _

end Value

section Line

theorem plainKey?_word {ks rest : List Char} (hk : ks.all isWord = true)
    (hr : rest.head?.all isGap = true) : Entry.plainKey? (ks ++ ':' :: rest) = some ks := by
  induction ks with
  | nil => simp [Entry.plainKey?, hr]
  | cons c ks ih =>
    rw [List.all_cons, Bool.and_eq_true] at hk
    have hc : c ≠ ':' := ne_of_eq hk.1 rfl
    rw [List.cons_append, Entry.plainKey?, if_neg (fun h => hc h.1), ih hk.2]
    rfl

theorem opensOther_keyStart {c : Char} (cs : List Char) (h : isKeyStart c = true) :
    Entry.opensOther (c::cs) = false := by
  have hdash : c ≠ '-' := ne_of_eq h rfl
  unfold Entry.opensOther
  split
  · rename_i heq
    cases heq
  · rename_i heq
    cases heq
    exact absurd rfl hdash
  · rename_i heq
    cases heq
    exact contains_keyStart h (by decide)

theorem isQuote_word {c : Char} (h : isWord c = true) : Entry.isQuote c = false := by
  simp only [Entry.isQuote, Bool.or_eq_false_iff]
  exact ⟨beq_of_eq h rfl, beq_of_eq h rfl⟩

theorem trimStart_spaces (n : Nat) (cs : List Char) :
    trimStart (List.replicate n ' ' ++ cs) = trimStart cs := by
  apply List.dropWhile_append_of_pos
  intro c hc
  rw [(List.mem_replicate.mp hc).2]
  decide

theorem trim_blank (n : Nat) : trim (List.replicate n ' ') = [] := by
  have hblank := trimStart_spaces n []
  rw [List.append_nil] at hblank
  rw [trim, hblank]
  rfl

theorem isEmpty_trim {cs : List Char} {c : Char} (hc : c ∈ cs) (h : isBlank c = false) :
    (trim cs).isEmpty = false := by
  cases htrim : trim cs with
  | nil =>
    have hmem := mem_trim hc h
    rw [htrim] at hmem
    cases hmem
  | cons d ds => rfl

theorem isStructural_keyStart {c : Char} (cs : List Char) (h : isKeyStart c = true) :
    Entry.isStructural (c::cs) = false := by
  have hhash : ('#' == c) = false := by rw [BEq.comm, beq_of_eq h rfl]
  have hdash : ('-' == c) = false := by rw [BEq.comm, beq_of_eq h rfl]
  have hdot : ('.' == c) = false := by rw [BEq.comm, beq_of_eq h rfl]
  simp [Entry.isStructural, List.isPrefixOf, hhash, hdash, hdot]

end Line

end SlideDirectives.Yaml.Page
