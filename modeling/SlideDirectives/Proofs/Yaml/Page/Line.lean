import SlideDirectives.Proofs.Yaml.Page.Scalar
import SlideDirectives.Yaml.Decode

/-!
# Lines that spell themselves

A line is a plain scalar if it starts like one and goes on to its end: no colon
stands before white space and no number sign behind it. So are keys and words.
-/

set_option autoImplicit false

namespace SlideDirectives.Yaml.Page

open Text

/-- Nothing ends a plain scalar here. -/
def runsOn : Bool → List Char → Bool
  | _, [] => true
  | afterGap, c::cs =>
    !(afterGap && c == '#') && !(c == ':' && atSpacing cs) && runsOn (isGap c) cs

/-- A plain scalar on one line, without white space around it. -/
structure PlainLine (cs : List Char) : Prop where
  opens : opensPlain cs = true
  inline : cs.all isInline = true
  runs : runsOn false cs = true
  last : ∀ c ∈ cs.getLast?, isBlank c = false

section Scan

open Plain

theorem gap_text {gap : Gap} (h : gap.isNone = true) : gap.text = [] := by
  simp only [Gap.isNone, Bool.and_eq_true, List.isEmpty_iff, Bool.not_eq_true'] at h
  rw [Gap.text, h.1, h.2]
  rfl

theorem addBlank_text {gap : Gap} (h : gap.broken = false) (c : Char) :
    (gap.addBlank c).text = gap.text ++ [c] ∧ (gap.addBlank c).broken = false ∧
      (gap.addBlank c).isNone = false := by
  rw [Gap.addBlank, h, if_neg Bool.false_ne_true]
  refine ⟨?_, rfl, ?_⟩
  · simp [Gap.text, h]
  · simp [Gap.isNone]

theorem go_line {m : Mark} {acc cs : List Char} {gap : Gap} (hinline : cs.all isInline = true)
    (hruns : runsOn (!gap.isNone) cs = true) (hbroken : gap.broken = false)
    (hcolumn : gap.isNone = false → 0 < m.column) (hnone : cs = [] → gap.isNone = true)
    (hlast : ∀ c ∈ cs.getLast?, isGap c = false) :
    ∃ m', go (blockContext 0) m acc gap cs = some ⟨acc.reverse ++ (gap.text ++ cs), false, ⟨[], m'⟩⟩ := by
  induction cs generalizing m acc gap with
  | nil =>
    refine ⟨m, ?_⟩
    rw [go, hbroken, gap_text (hnone rfl), List.append_nil, List.append_nil]
  | cons c cs ih =>
    rw [List.all_cons, Bool.and_eq_true] at hinline
    simp only [runsOn, Bool.and_eq_true, Bool.not_eq_true'] at hruns
    obtain ⟨⟨hhash, hcolon⟩, hrest⟩ := hruns
    have hlater : ∀ d ∈ cs.getLast?, isGap d = false := by
      intro d hd
      cases cs with
      | nil => cases hd
      | cons e es => exact hlast d (by simpa using hd)
    have hbreak : isBreak c = false := isBreak_of_isInline hinline.1
    rw [go_cons (isInline_ne hinline.1 (by decide)), hbreak, if_neg Bool.false_ne_true]
    by_cases hgap : Text.isGap c = true
    · obtain ⟨htext, hunbroken, hsome⟩ := addBlank_text hbroken c
      rw [if_pos hgap, hbroken, Bool.false_and, Bool.false_and, if_neg Bool.false_ne_true]
      have hne : cs ≠ [] := by
        rintro rfl
        rw [hlast c rfl] at hgap
        cases hgap
      rw [hgap] at hrest
      obtain ⟨m', hgo⟩ := @ih m.next acc (gap.addBlank c) hinline.2 (by rw [hsome]; exact hrest)
        hunbroken (fun _ => Nat.succ_pos _) (fun hnil => absurd hnil hne) hlater
      refine ⟨m', ?_⟩
      rw [hgo, htext, List.append_assoc, List.singleton_append]
    · have hstays : (!gap.isNone && endsScalar (blockContext 0) m (c::cs)) = false := by
        cases hisNone : gap.isNone with
        | true => rfl
        | false =>
          rw [hisNone, Bool.not_false, Bool.true_and] at hhash
          have hpos := hcolumn hisNone
          have hzero : (m.column == 0) = false := by
            rw [beq_eq_false_iff_ne]
            omega
          have hindent : ¬ (m.column : Int) < 0 := by omega
          simp [endsScalar, blockContext, hzero, hindent, startsWith, hhash]
      have hword : endsWord (blockContext 0) (c::cs) = false := by
        simp [endsWord, blockContext, hcolon]
      rw [if_neg hgap, hstays, if_neg Bool.false_ne_true, refused_block,
        if_neg Bool.false_ne_true, hword, if_neg Bool.false_ne_true]
      rw [Bool.eq_false_iff.mpr hgap] at hrest
      obtain ⟨m', hgo⟩ := @ih m.next (c :: (gap.text.reverse ++ acc)) Gap.none hinline.2 hrest rfl
        (fun hnone => by cases hnone) (fun _ => rfl) hlater
      refine ⟨m', ?_⟩
      rw [hgo]
      simp [Gap.text, Gap.none]

theorem PlainLine.spelled {cs : List Char} (h : PlainLine cs) : spelled? cs = some (cs, .plain) := by
  obtain ⟨opens, inline, runs, last⟩ := h
  cases cs with
  | nil => cases opens
  | cons c cs =>
    have hquote : quote? c = none := by
      rw [quote?, if_neg, if_neg]
      · rintro rfl
        simp [opensPlain, isIndicator] at opens
      · rintro rfl
        simp [opensPlain, isIndicator] at opens
    have hgap : ∀ d ∈ (c::cs).getLast?, isGap d = false :=
      fun d hd => (Bool.or_eq_false_iff.mp (isSpacing_last last d hd)).1
    obtain ⟨m', hgo⟩ := @go_line Mark.start [] (c::cs) Gap.none inline runs rfl
      (fun hnone => by cases hnone) (fun _ => rfl) hgap
    have hscan : Plain.scan? ⟨false, 0⟩ (Cursor.start (c::cs)) = some ⟨c::cs, false, ⟨[], m'⟩⟩ := hgo
    rw [spelled?, hquote]
    simp only [opens, if_true, hscan, Option.bind_some, List.isEmpty_nil]

end Scan

section Words

variable {cs : List Char}

theorem runsOn_of_all (h : cs.all (fun c => c != '#' && c != ':') = true) (afterGap : Bool) :
    runsOn afterGap cs = true := by
  induction cs generalizing afterGap with
  | nil => rfl
  | cons c cs ih =>
    simp only [List.all_cons, Bool.and_eq_true, bne_iff_ne] at h
    obtain ⟨⟨hhash, hcolon⟩, hcs⟩ := h
    simp [runsOn, hhash, hcolon, ih hcs]

theorem isThrice_of_ne {c d : Char} (cs : List Char) (h : c ≠ d) : isThrice d (c::cs) = false := by
  unfold isThrice
  split
  · rename_i heq
    cases heq
    simp [h]
  · rfl

/-- A dash may be a token of its own or a mark of a document, a point such a mark. -/
theorem opensPlain_word {c : Char} (h : isWord c = true) (hdash : c ≠ '-') (hdot : c ≠ '.')
    (cs : List Char) : opensPlain (c::cs) = true := by
  have hspacing : isSpacing c = false := by
    rw [isSpacing, isGap_of_isWord h, isBreak_of_isGraphic (isGraphic_of_isWord h)]
    rfl
  have hindicator : isIndicator c = false := by
    rw [isIndicator, Bool.eq_false_iff]
    intro hmem
    have hnone : "-?:,[]\x7b\x7d#&*!|>\x27\x22%@\x60".toList.all
        (fun d => !isWord d || d == '-') = true := by
      decide
    have hc := List.all_eq_true.mp hnone c (List.contains_iff_mem.mp hmem)
    simp [h, hdash] at hc
  have hmarker : isDocumentMarker (c::cs) = false := by
    rw [isDocumentMarker, isThrice_of_ne cs hdash, isThrice_of_ne cs hdot]
    rfl
  have hmark : c ≠ byteOrderMark := ne_of_eq h (by decide)
  simp [opensPlain, hspacing, hindicator, hmarker, hmark]

theorem PlainLine.of_words (hopens : opensPlain cs = true)
    (hcs : cs.all (fun c => isWord c || c == ' ') = true)
    (hlast : ∀ c ∈ cs.getLast?, isWord c = true) : PlainLine cs := by
  have hall := List.all_eq_true.mp hcs
  refine ⟨hopens, ?_, runsOn_of_all ?_ false, fun c hc => isBlank_of_isWord (hlast c hc)⟩
  · apply all_isInline
    rw [List.all_eq_true]
    intro c hc
    rcases Bool.or_eq_true_iff.mp (hall c hc) with h | h
    · exact isGraphic_of_isWord h
    · rw [eq_of_beq h]
      rfl
  · rw [List.all_eq_true]
    intro c hc
    rcases Bool.or_eq_true_iff.mp (hall c hc) with h | h
    · simp [ne_of_eq h (d := '#') rfl, ne_of_eq h (d := ':') rfl]
    · rw [eq_of_beq h]
      rfl

theorem PlainLine.of_word {c : Char} (h : (c::cs).all isWord = true) (hdash : c ≠ '-')
    (hdot : c ≠ '.') : PlainLine (c::cs) := by
  have hall := List.all_eq_true.mp h
  refine PlainLine.of_words (opensPlain_word (hall c List.mem_cons_self) hdash hdot cs) ?_
    fun d hd => hall d (List.mem_of_getLast? hd)
  rw [List.all_eq_true]
  exact fun d hd => by rw [hall d hd, Bool.true_or]

theorem Key.plainLine (k : Key) : PlainLine k.chars := by
  obtain ⟨c, cs, hcs, hstart, hall⟩ := isKey_cons k.wellFormed
  rw [hcs] at hall ⊢
  exact PlainLine.of_word hall (ne_of_eq hstart rfl) (ne_of_eq hstart rfl)

end Words

section Values

variable {cs : List Char} {value : Value}

theorem PlainLine.ne_nil (h : PlainLine cs) : cs ≠ [] := by
  rintro rfl
  cases h.opens

theorem PlainLine.ends (h : PlainLine cs) : cs.getLast?.any (fun c => !isBlank c) = true := by
  have hlast := List.getLast?_eq_some_getLast h.ne_nil
  simp [hlast, h.last _ hlast]

def PlainLine.scalar (h : PlainLine cs) (hvalue : Decode.plainValue? cs = some value) : Scalar where
  first := cs
  later := []
  text := cs
  style := .plain
  value := value
  spelled := by
    rw [glued, List.flatMap_nil, List.append_nil]
    exact h.spelled
  resolved := hvalue
  inline := h.inline
  hanging := all_goesOn_nil
  ends := by
    rw [glued, List.flatMap_nil, List.append_nil]
    exact h.ends

end Values

end SlideDirectives.Yaml.Page
