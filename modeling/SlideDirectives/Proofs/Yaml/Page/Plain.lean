import SlideDirectives.Proofs.Yaml.Page.Blank

/-!
# Plain scalars in their place

A plain scalar is read character by character. A key is read up to its colon.
A scalar that is all of a text is read the same behind a key, whatever follows
it on its last line, if its further lines are blank or start with a space.
-/

set_option autoImplicit false

namespace SlideDirectives.Yaml

namespace Plain

variable {ctx : Plain.Context} {m : Mark} {acc cs : List Char} {gap : Gap}

theorem go_cons {c : Char} (hc : c ≠ '\r') : go ctx m acc gap (c::cs) =
    if isBreak c then go ctx (m.nextLine 1) acc (gap.addBreak c) cs
    else if Text.isGap c then
      if gap.broken && (m.column : Int) < ctx.indent && c == '\t' then none
      else go ctx m.next acc (gap.addBlank c) cs
    else if !gap.isNone && endsScalar ctx m (c::cs) then
      some ⟨acc.reverse, gap.broken, ⟨c::cs, m⟩⟩
    else if refused ctx (c::cs) then none
    else if endsWord ctx (c::cs) then some ⟨acc.reverse, gap.broken, ⟨c::cs, m⟩⟩
    else go ctx m.next (c :: (gap.text.reverse ++ acc)) Gap.none cs := by
  rw [go]
  intro rest h
  exact absurd h hc

theorem go_space : go ctx m acc gap (' ' :: cs) = go ctx m.next acc (gap.addBlank ' ') cs := by
  rw [go_cons (by decide)]
  simp [isBreak, nextLine, lineSeparator, paragraphSeparator, Text.isGap]

theorem go_newline :
    go ctx m acc gap ('\n' :: cs) = go ctx (m.nextLine 1) acc (gap.addBreak '\n') cs := by
  rw [go_cons (by decide)]
  simp [isBreak]

theorem go_hash (hgap : gap.isNone = false) :
    go ctx m acc gap ('#' :: cs) = some ⟨acc.reverse, gap.broken, ⟨'#' :: cs, m⟩⟩ := by
  rw [go_cons (by decide)]
  simp [isBreak, nextLine, lineSeparator, paragraphSeparator, Text.isGap, hgap, endsScalar,
    startsWith]

end Plain

namespace Page

open Plain

variable {m : Mark} {acc cs : List Char}

def blockContext (indent : Int) : Plain.Context := ⟨false, indent⟩

theorem refused_block (indent : Int) (cs : List Char) :
    refused (blockContext indent) cs = false := by
  unfold refused
  split <;> rfl

theorem word_passes {c : Char} (h : isWord c = true) :
    c ≠ '\r' ∧ isBreak c = false ∧ Text.isGap c = false ∧
      ∀ indent, endsWord (blockContext indent) (c::cs) = false := by
  have hcolon : c ≠ ':' := ne_of_eq h rfl
  refine ⟨ne_of_eq h rfl, isBreak_of_isGraphic (isGraphic_of_isWord h), isGap_of_isWord h, ?_⟩
  intro indent
  simp [endsWord, blockContext, hcolon]

theorem go_word {c : Char} (h : isWord c = true) (indent : Int) :
    go (blockContext indent) m acc Gap.none (c::cs) =
      go (blockContext indent) m.next (c::acc) Gap.none cs := by
  obtain ⟨hreturn, hbreak, hgap, hends⟩ := @word_passes cs c h
  rw [go_cons hreturn]
  simp [hbreak, hgap, refused_block, hends, Gap.isNone, Gap.none, Gap.text]

theorem go_words {ks : List Char} (h : ks.all isWord = true) (indent : Int) :
    go (blockContext indent) m acc Gap.none (ks ++ cs) =
      go (blockContext indent) (m.plus ks.length) (ks.reverse ++ acc) Gap.none cs := by
  induction ks generalizing m acc with
  | nil => rfl
  | cons c ks ih =>
    rw [List.all_cons, Bool.and_eq_true] at h
    rw [List.cons_append, go_word h.1, ih h.2, Mark.next_plus, List.reverse_cons,
      List.append_assoc]
    rfl

theorem go_colon {rest : List Char} (h : atSpacing rest = true) (indent : Int) :
    go (blockContext indent) m acc Gap.none (':' :: rest) =
      some ⟨acc.reverse, false, ⟨':' :: rest, m⟩⟩ := by
  rw [go_cons (by decide)]
  simp [isBreak, nextLine, lineSeparator, paragraphSeparator, Text.isGap, Gap.isNone, Gap.none,
    refused_block, endsWord, h]

end Page

def atIndent (cs : List Char) : Bool :=
  cs.head?.all (fun c => c == ' ' || c == '\n')

/-- Lines are broken by newlines only, and are blank or start with a space. -/
def hangs : List Char → Bool
  | [] => true
  | c::cs => (if c = '\n' then atIndent cs else !isBreak c) && hangs cs

/-- Where a word may start, the line is not at its first column. -/
def Inside (m : Mark) (cs : List Char) : Prop :=
  0 < m.column ∨ atIndent cs = true

theorem inside_next (m : Mark) (cs : List Char) : Inside m.next cs :=
  Or.inl (Nat.succ_pos m.column)

theorem hangs_cons {c : Char} {cs : List Char} (h : hangs (c::cs) = true) :
    hangs cs = true ∧ c ≠ '\r' ∧ (c = '\n' ∧ atIndent cs = true ∨ isBreak c = false) := by
  rw [hangs, Bool.and_eq_true] at h
  refine ⟨h.2, ?_, ?_⟩
  · rintro rfl
    cases h.1
  · by_cases hc : c = '\n'
    · rw [if_pos hc] at h
      exact Or.inl ⟨hc, h.1⟩
    · rw [if_neg hc, Bool.not_eq_true'] at h
      exact Or.inr h.1

theorem Inside.column {m : Mark} {c : Char} {cs : List Char} (h : Inside m (c::cs))
    (hspace : c ≠ ' ') (hnewline : c ≠ '\n') : 0 < m.column := by
  rcases h with h | h
  · exact h
  · simp [atIndent, hspace, hnewline] at h

namespace Plain

open Page

theorem endsWord_append {indent : Int} {c : Char} {cs : List Char}
    (h : endsWord (blockContext 0) (c::cs) = false) (tail : List Char) :
    endsWord (blockContext indent) (c::(cs ++ tail)) = false := by
  simp only [endsWord, blockContext, Bool.false_and, Bool.or_false, Bool.and_eq_false_imp,
    beq_iff_eq] at h ⊢
  intro hc
  have hspacing := h hc
  cases cs with
  | nil => cases hspacing
  | cons d ds => exact hspacing

theorem endsScalar_inside {m m' : Mark} {c : Char} {cs tail : List Char} (hm : 0 < m'.column)
    (h : endsScalar (blockContext 0) m (c::cs) = false) :
    endsScalar (blockContext 1) m' (c::(cs ++ tail)) = false := by
  have hcolumn : ¬ (m'.column : Int) < 1 := by omega
  have hstart : (m'.column == 0) = false := by
    rw [beq_eq_false_iff_ne]
    omega
  simp only [endsScalar, Bool.or_eq_false_iff, startsWith] at h ⊢
  simp [blockContext, hcolumn, hstart, h.2]

theorem tab_indent_zero {m : Mark} {gap : Gap} {c : Char} :
    (gap.broken && (m.column : Int) < (blockContext 0).indent && c == '\t') = false := by
  have hcolumn : ¬ (m.column : Int) < 0 := by omega
  simp [blockContext, hcolumn]

theorem tab_indent_one {m : Mark} {gap : Gap} {c : Char} {cs : List Char} (hm : Inside m (c::cs)) :
    (gap.broken && (m.column : Int) < (blockContext 1).indent && c == '\t') = false := by
  by_cases htab : c = '\t'
  · subst htab
    have hpos := hm.column (by decide) (by decide)
    have hcolumn : ¬ (m.column : Int) < 1 := by omega
    simp [blockContext, hcolumn]
  · simp [htab]

/-- What is read of a plain scalar that ends with its text is read of it in
place. Of the white space that it may end with nothing is pending. -/
theorem go_place {m m' m₁ : Mark} {acc cs t : List Char} {gap : Gap} {b : Bool}
    (h : go (blockContext 0) m acc gap cs = some ⟨t, b, ⟨[], m₁⟩⟩) (hhangs : hangs cs = true)
    (hlast : ∀ c ∈ cs.getLast?, isSpacing c = false) (hm : Inside m' cs) (tail : List Char) :
    ∃ m₂, go (blockContext 1) m' acc gap (cs ++ tail) =
      go (blockContext 1) m₂ t.reverse (if cs = [] then gap else Gap.none) tail := by
  induction cs generalizing m m' acc gap with
  | nil =>
    obtain ⟨rfl, -⟩ := Result.mk.inj (Option.some.inj h)
    exact ⟨m', by simp⟩
  | cons c cs ih =>
    obtain ⟨hrest, hreturn, hc⟩ := hangs_cons hhangs
    have hlater : ∀ d ∈ cs.getLast?, isSpacing d = false := by
      intro d hd
      cases cs with
      | nil => cases hd
      | cons e es => exact hlast d (by simpa using hd)
    have hne : isSpacing c = true → cs ≠ [] := by
      rintro hspacing rfl
      rw [hlast c rfl] at hspacing
      cases hspacing
    rw [go_cons hreturn] at h
    rw [List.cons_append, if_neg (List.cons_ne_nil c cs), go_cons hreturn]
    rcases hc with ⟨rfl, hindent⟩ | hbreak
    · have hnewline : isBreak '\n' = true := by decide
      rw [if_pos hnewline] at h ⊢
      have hinside : Inside (m'.nextLine 1) cs := Or.inr hindent
      have hplace := ih h hrest hlater hinside
      rwa [if_neg (hne (by decide))] at hplace
    · rw [if_neg (ne_true_of_eq_false hbreak)] at h ⊢
      by_cases hgap : Text.isGap c = true
      · rw [if_pos hgap, tab_indent_zero, if_neg Bool.false_ne_true] at h
        rw [if_pos hgap, tab_indent_one hm, if_neg Bool.false_ne_true]
        have hplace := ih h hrest hlater (inside_next m' cs)
        rwa [if_neg (hne (by simp [isSpacing, hgap]))] at hplace
      · have hspace : c ≠ ' ' := by
          rintro rfl
          exact hgap rfl
        have hcolumn : 0 < m'.column := hm.column hspace (by
          rintro rfl
          cases hbreak)
        have hstops : ∀ b', (some ⟨acc.reverse, b', ⟨c::cs, m⟩⟩ : Option Result) ≠
            some ⟨t, b, ⟨[], m₁⟩⟩ := by
          simp
        rw [if_neg hgap] at h ⊢
        split at h
        · exact absurd h (hstops _)
        · rename_i hscalar
          rw [refused_block, if_neg Bool.false_ne_true] at h
          split at h
          · exact absurd h (hstops _)
          · rename_i hword
            have hword' := @endsWord_append 1 c cs (eq_false_of_ne_true hword) tail
            have hscalar' : (!gap.isNone && endsScalar (blockContext 1) m' (c::(cs ++ tail))) =
                false := by
              cases hnil : gap.isNone with
              | true => rfl
              | false =>
                rw [hnil, Bool.not_false, Bool.true_and] at hscalar
                exact endsScalar_inside hcolumn (eq_false_of_ne_true hscalar)
            rw [hscalar', refused_block, hword']
            simp only [Bool.false_eq_true, if_false]
            have hplace := ih h hrest hlater (inside_next m' cs)
            rwa [ite_self] at hplace

end Plain

end SlideDirectives.Yaml
