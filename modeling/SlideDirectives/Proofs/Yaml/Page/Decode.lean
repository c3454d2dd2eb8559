import SlideDirectives.Proofs.Yaml.Page.Tokens

/-!
# The value of a page

A page decodes to the mapping of its fields in their order, unless a key has
the value of a key before it. A scalar that is all of a text decodes to the
value that it has in its page.
-/

set_option autoImplicit false

namespace SlideDirectives.Yaml.Page

/-- A page decodes to the mapping of its fields, or fails with the fault of a
repeated key at the top. -/
theorem decode_joined {rows : List Row} (h : rows.filterMap Row.field? ≠ []) :
    decode (joined ['\n'] rows) =
      if repeatsKey [] ((rows.filterMap Row.field?).map Field.decoded) then
        .error (.duplicateKey ['.'])
      else .ok (.mapping ((rows.filterMap Row.field?).map Field.decoded)) := by
  have hfound : ((rows.filterMap Row.field?).map Field.binding).map Binding.found =
      (rows.filterMap Row.field?).map Field.decoded := by
    rw [List.map_map]
    rfl
  rw [← hfound]
  exact decode_mapping (fun hnil => h (List.map_eq_nil_iff.mp hnil)) (ofText_joined rows)

theorem Scalar.decode_written (s : Scalar) : decode (s.written ['\n']) = .ok s.value :=
  decode_scalar s.resolved (ofText_spelled s.spelled_written (all_isPrintable s.lines_inline))

/-- Without a colon behind it a key is a scalar by itself. -/
theorem decode_key (k : Key) : decode k.chars = .ok k.value := by
  have hvalue : Decode.scalarValue? none k.chars .plain = some k.value := plainValue_key k
  have hprintable : k.chars.all isPrintable = true := by
    rw [List.all_eq_true]
    exact fun c hc => isPrintable_of_isInline (List.all_eq_true.mp k.plainLine.inline c hc)
  exact decode_scalar hvalue (ofText_spelled (spelled_of k.plainLine.spelled) hprintable)

theorem plainValue_string {text t : List Char} (h : Decode.plainValue? text = some (.string t)) :
    t = text := by
  rw [Decode.plainValue?] at h
  split at h
  · cases h
  · cases hbool : Decode.bool? text with
    | some b =>
      rw [hbool] at h
      cases h
    | none =>
      cases hwhole : Number.whole? text with
      | some w =>
        rw [hbool, hwhole] at h
        cases w <;> cases h
      | none =>
        simp only [hbool, hwhole] at h
        split at h
        · exact (Yaml.Value.string.inj (Option.some.inj h)).symm
        · cases hreal : Number.real? text with
          | some b =>
            rw [hreal] at h
            cases h
          | none =>
            rw [hreal] at h
            exact (Yaml.Value.string.inj (Option.some.inj h)).symm

theorem valueText_plain {text : List Char} {value : Yaml.Value}
    (h : Decode.plainValue? text = some value) : Outline.valueText text value = text := by
  cases value with
  | string t => exact plainValue_string h
  | _ => rfl

section Wide

variable {w : List Char}

def plainWords : List (List Char) :=
  [] :: ["null", "Null", "NULL", "~", "true", "True", "TRUE", "false", "False", "FALSE"].map
    String.toList

theorem not_wide_of_mem (h : w ∈ plainWords) : Number.whole? w ≠ some .tooWide := by
  revert w
  decide

theorem isNull_of_wide (h : Number.whole? w = some .tooWide) : Decode.isNull w = false := by
  rw [Bool.eq_false_iff]
  intro hnull
  refine not_wide_of_mem ?_ h
  simp only [Decode.isNull, Bool.or_eq_true, List.isEmpty_iff, List.contains_iff_mem, List.mem_cons,
    List.not_mem_nil, or_false] at hnull
  rcases hnull with rfl | rfl | rfl | rfl | rfl <;> decide

theorem bool?_of_wide (h : Number.whole? w = some .tooWide) : Decode.bool? w = none := by
  have hno : ∀ words, words ⊆ plainWords → ¬ words.contains w = true :=
    fun words hwords hmem => not_wide_of_mem (hwords (List.contains_iff_mem.mp hmem)) h
  rw [Decode.bool?, if_neg (hno _ (by decide)), if_neg (hno _ (by decide))]

theorem plainValue_wide (h : Number.whole? w = some .tooWide) :
    Decode.plainValue? w = none := by
  simp only [Decode.plainValue?, isNull_of_wide h, bool?_of_wide h, h, Decode.wholeValue?,
    Bool.false_eq_true, if_false]

/-- Every other plain scalar spells one. -/
theorem plainValue_narrow (h : Number.whole? w ≠ some .tooWide) :
    ∃ value, Decode.plainValue? w = some value := by
  rw [Decode.plainValue?]
  by_cases hnull : Decode.isNull w = true
  · rw [if_pos hnull]
    exact ⟨_, rfl⟩
  · rw [if_neg hnull]
    cases Decode.bool? w with
    | some b => exact ⟨_, rfl⟩
    | none =>
      cases hwhole : Number.whole? w with
      | some whole =>
        cases whole with
        | number n => exact ⟨_, rfl⟩
        | tooWide => exact absurd hwhole h
      | none =>
        by_cases hzero : Number.hasLeadingZero w = true
        · exact ⟨.string w, by simp only [hzero, if_true]⟩
        · cases hreal : Number.real? w with
          | some b => exact ⟨.number (.real b), by simp only [hzero, if_false, Bool.false_eq_true]⟩
          | none => exact ⟨.string w, by simp only [hzero, if_false, Bool.false_eq_true]⟩

theorem PlainLine.exists_scalar (h : PlainLine w) (hnarrow : Number.whole? w ≠ some .tooWide) :
    ∃ s : Scalar, s.first = w ∧ s.later = [] ∧ Outline.valueText w s.value = w := by
  obtain ⟨value, hvalue⟩ := plainValue_narrow hnarrow
  exact ⟨h.scalar hvalue, rfl, rfl, valueText_plain hvalue⟩

end Wide

end SlideDirectives.Yaml.Page
