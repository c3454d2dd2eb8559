import SlideDirectives.Proofs.Yaml.Page.Plain

/-!
# Scalars read in their place

A quoted scalar is read up to the same quote wherever it stands, and a plain one
up to the end of what is written of it. So what a scalar is read as by itself it
is read as behind a key.
-/

set_option autoImplicit false

namespace SlideDirectives.Yaml

namespace Quoted

variable {q : Quote} {m m' m₁ : Mark} {acc cs t : List Char} {gap : Gap} {mode : Mode} {c : Char}

def Doubles (q : Quote) (cs : List Char) : Prop :=
  q = .single ∧ cs.head? = some '\x27'

instance (q : Quote) (cs : List Char) : Decidable (Doubles q cs) :=
  inferInstanceAs (Decidable (_ ∧ _))

theorem go_text (hreturn : c ≠ '\r') : go q m acc gap .text (c::cs) =
    if isBreak c then go q (m.nextLine 1) acc (gap.addBreak c) .text cs
    else if Text.isGap c then go q m.next acc (gap.addBlank c) .text cs
    else if m.column == 0 && isDocumentMarker (c::cs) then none
    else if c == q.char then
      if Doubles q cs then
        go q m.next.next ('\x27' :: (gap.text.reverse ++ acc)) Gap.none .text cs.tail
      else some ((gap.text.reverse ++ acc).reverse, ⟨cs, m.next⟩)
    else if q = .double ∧ c = '\\' then go q m.next (gap.text.reverse ++ acc) Gap.none .escape cs
    else go q m.next (c :: (gap.text.reverse ++ acc)) Gap.none .text cs := by
  rw [go]
  case x_2 => exact fun rest h => absurd h hreturn
  cases q with
  | double => rfl
  | single =>
    cases cs with
    | nil => rfl
    | cons d cs =>
      by_cases hd : d = '\x27'
      · subst hd
        rfl
      · simp [Doubles, hd]

theorem go_escape (hreturn : c ≠ '\r') : go q m acc gap .escape (c::cs) =
    if isBreak c then go q (m.nextLine 1) acc Gap.joined .text cs
    else (simpleEscape? c).elim
      ((codeLength? c).bind fun digits => go q m.next acc Gap.none (.code digits 0) cs)
      (fun x => go q m.next (x::acc) Gap.none .text cs) := by
  rw [go]
  case x_2 => exact fun rest h => absurd h hreturn
  cases simpleEscape? c with
  | some x => rfl
  | none => cases codeLength? c <;> rfl

theorem step_code {digits value : Nat} {r : List Char × Cursor}
    (h : go q m acc gap (.code digits value) (c::cs) = some r) :
    hexDigit? c ≠ none ∧ ∃ acc' mode', mode' ≠ .escape ∧ ∀ m cs,
      go q m acc gap (.code digits value) (c::cs) = go q m.next acc' Gap.none mode' cs := by
  rw [go] at h
  obtain ⟨digit, hdigit, h⟩ := Option.bind_eq_some_iff.mp h
  refine ⟨by simp [hdigit], ?_⟩
  rcases digits with _ | _ | digits
  · cases h
  · obtain ⟨x, hx, -⟩ := Option.bind_eq_some_iff.mp h
    refine ⟨x::acc, .text, by simp, ?_⟩
    intro m cs
    simp only [go, hdigit, Option.bind_eq_bind, Option.bind_some, hx]
  · refine ⟨acc, .code (digits + 1) (value * 16 + digit), by simp, ?_⟩
    intro m cs
    simp only [go, hdigit, Option.bind_eq_bind, Option.bind_some]

theorem step_escape {r : List Char × Cursor} (hreturn : c ≠ '\r') (hbreak : isBreak c = false)
    (h : go q m acc gap .escape (c::cs) = some r) :
    ∃ acc' mode', mode' ≠ .escape ∧ ∀ m cs,
      go q m acc gap .escape (c::cs) = go q m.next acc' Gap.none mode' cs := by
  rw [go_escape hreturn, if_neg (ne_true_of_eq_false hbreak)] at h
  cases hsimple : simpleEscape? c with
  | some x =>
    refine ⟨x::acc, .text, by simp, ?_⟩
    intro m cs
    rw [go_escape hreturn, if_neg (ne_true_of_eq_false hbreak), hsimple, Option.elim_some]
  | none =>
    rw [hsimple, Option.elim_none] at h
    obtain ⟨digits, hlength, -⟩ := Option.bind_eq_some_iff.mp h
    refine ⟨acc, .code digits 0, by simp, ?_⟩
    intro m cs
    rw [go_escape hreturn, if_neg (ne_true_of_eq_false hbreak), hsimple, Option.elim_none, hlength,
      Option.bind_some]

theorem isGap_quote (q : Quote) : Text.isGap q.char = false := by
  cases q <;> decide

theorem ne_space_of_quote (h : c = q.char) : c ≠ ' ' := by
  subst h
  cases q <;> decide

/-- What the scan of a scalar that ends with its text does with a character of
text, wherever the line goes on: it passes it, or the first of a doubled quote
with the second one, or the scalar is closed. -/
inductive TextStep (q : Quote) (acc : List Char) (gap : Gap) (c : Char) (t : List Char)
    (m₁ : Mark) : List Char → Prop where
  | pass {cs acc' : List Char} {gap' : Gap} {mode' : Mode} {m : Mark} (hquote : c ≠ q.char)
      (hmode : mode' = .escape ↔ q = .double ∧ c = '\\')
      (h : go q m acc' gap' mode' cs = some (t, ⟨[], m₁⟩))
      (hstep : ∀ m cs, (c ≠ ' ' → 0 < m.column) →
        go q m acc gap .text (c::cs) = go q m.next acc' gap' mode' cs) :
      TextStep q acc gap c t m₁ cs
  | doubled {cs acc' : List Char} {m : Mark} (hquote : c = q.char) (hsingle : q = .single)
      (h : go q m acc' Gap.none .text cs = some (t, ⟨[], m₁⟩))
      (hstep : ∀ m cs, 0 < m.column →
        go q m acc gap .text (c :: '\x27' :: cs) = go q m.next.next acc' Gap.none .text cs) :
      TextStep q acc gap c t m₁ ('\x27' :: cs)
  | close (hquote : c = q.char)
      (hstep : ∀ m tail, 0 < m.column → ¬ Doubles q tail →
        go q m acc gap .text (c::tail) = some (t, ⟨tail, m.next⟩)) :
      TextStep q acc gap c t m₁ []

/-- Off the first column nothing marks the end of a document. -/
theorem go_word (hreturn : c ≠ '\r') (hbreak : isBreak c = false) (hgap : Text.isGap c = false)
    (hm : 0 < m.column) : go q m acc gap .text (c::cs) =
      if c == q.char then
        if Doubles q cs then
          go q m.next.next ('\x27' :: (gap.text.reverse ++ acc)) Gap.none .text cs.tail
        else some ((gap.text.reverse ++ acc).reverse, ⟨cs, m.next⟩)
      else if q = .double ∧ c = '\\' then go q m.next (gap.text.reverse ++ acc) Gap.none .escape cs
      else go q m.next (c :: (gap.text.reverse ++ acc)) Gap.none .text cs := by
  have hstart : (m.column == 0) = false := by
    rw [beq_eq_false_iff_ne]
    omega
  rw [go_text hreturn, if_neg (ne_true_of_eq_false hbreak), if_neg (ne_true_of_eq_false hgap),
    hstart, Bool.false_and, if_neg Bool.false_ne_true]

theorem step_text (hreturn : c ≠ '\r') (hbreak : isBreak c = false)
    (h : go q m acc gap .text (c::cs) = some (t, ⟨[], m₁⟩)) : TextStep q acc gap c t m₁ cs := by
  have htext : Mode.text ≠ .escape := nofun
  rw [go_text hreturn, if_neg (ne_true_of_eq_false hbreak)] at h
  cases hgap : Text.isGap c with
  | true =>
    rw [hgap, if_pos rfl] at h
    refine .pass ?_ (iff_of_false htext ?_) h fun m cs _ => ?_
    · rintro rfl
      rw [isGap_quote] at hgap
      cases hgap
    · rintro ⟨-, rfl⟩
      cases hgap
    · rw [go_text hreturn, if_neg (ne_true_of_eq_false hbreak), if_pos hgap]
  | false =>
    have hspace : c ≠ ' ' := by
      rintro rfl
      cases hgap
    rw [hgap, if_neg Bool.false_ne_true] at h
    split at h
    · cases h
    by_cases hquote : (c == q.char) = true
    · rw [if_pos hquote] at h
      by_cases hdouble : Doubles q cs
      · obtain ⟨ds, rfl⟩ := List.head?_eq_some_iff.mp hdouble.2
        rw [if_pos hdouble] at h
        refine .doubled (eq_of_beq hquote) hdouble.1 h fun m cs hm => ?_
        rw [go_word hreturn hbreak hgap hm, if_pos hquote, if_pos ⟨hdouble.1, rfl⟩,
          List.tail_cons]
      · rw [if_neg hdouble] at h
        obtain ⟨rfl, hcursor⟩ := Prod.mk.inj (Option.some.inj h)
        obtain ⟨rfl, -⟩ := Cursor.mk.inj hcursor
        refine .close (eq_of_beq hquote) fun m tail hm htail => ?_
        rw [go_word hreturn hbreak hgap hm, if_pos hquote, if_neg htail]
    · rw [if_neg hquote] at h
      have hne : c ≠ q.char := by simpa using hquote
      by_cases hescape : q = .double ∧ c = '\\'
      · rw [if_pos hescape] at h
        refine .pass hne (iff_of_true rfl hescape) h fun m cs hm => ?_
        rw [go_word hreturn hbreak hgap (hm hspace), if_neg hquote, if_pos hescape]
      · rw [if_neg hescape] at h
        refine .pass hne (iff_of_false htext hescape) h fun m cs hm => ?_
        rw [go_word hreturn hbreak hgap (hm hspace), if_neg hquote, if_neg hescape]

theorem go_place {cs tail : List Char} (h : go q m acc gap mode cs = some (t, ⟨[], m₁⟩))
    (hhangs : hangs cs = true) (hm : Inside m' cs) (htail : ¬ Doubles q tail) :
    ∃ m₂, go q m' acc gap mode (cs ++ tail) = some (t, ⟨tail, m₂⟩) := by
  -- On the length, not on the text: a doubled quote is two characters.
  induction hn : cs.length using Nat.strongRecOn generalizing m m' acc gap mode cs with
  | ind n ih =>
    subst hn
    cases cs with
    | nil => simp [go] at h
    | cons c cs =>
      obtain ⟨hrest, hreturn, hc⟩ := hangs_cons hhangs
      have hnext : ∀ {m acc gap mode}, go q m acc gap mode cs = some (t, ⟨[], m₁⟩) →
          ∃ m₂, go q m'.next acc gap mode (cs ++ tail) = some (t, ⟨tail, m₂⟩) :=
        fun h => ih cs.length (Nat.lt_succ_self _) h hrest (inside_next m' cs) rfl
      have hline : ∀ {m acc gap mode}, atIndent cs = true →
          go q m acc gap mode cs = some (t, ⟨[], m₁⟩) →
          ∃ m₂, go q (m'.nextLine 1) acc gap mode (cs ++ tail) = some (t, ⟨tail, m₂⟩) :=
        fun hindent h => ih cs.length (Nat.lt_succ_self _) h hrest (Or.inr hindent) rfl
      have hnewline : isBreak '\n' = true := by decide
      rw [List.cons_append]
      cases mode with
      | code digits value =>
        obtain ⟨-, acc', mode', -, hstep⟩ := step_code h
        rw [hstep] at h ⊢
        exact hnext h
      | escape =>
        rcases hc with ⟨rfl, hindent⟩ | hbreak
        · rw [go_escape hreturn, if_pos hnewline] at h ⊢
          exact hline hindent h
        · obtain ⟨acc', mode', -, hstep⟩ := step_escape hreturn hbreak h
          rw [hstep] at h ⊢
          exact hnext h
      | text =>
        rcases hc with ⟨rfl, hindent⟩ | hbreak
        · rw [go_text hreturn, if_pos hnewline] at h ⊢
          exact hline hindent h
        · have hcolumn : c ≠ ' ' → 0 < m'.column := fun hspace => hm.column hspace (by
            rintro rfl
            cases hbreak)
          cases step_text hreturn hbreak h with
          | pass hquote hmode hgo hstep =>
            rw [hstep m' _ hcolumn]
            exact hnext hgo
          | @doubled cs _ _ hquote hsingle hgo hstep =>
            rw [List.cons_append, hstep m' _ (hcolumn (ne_space_of_quote hquote))]
            exact ih cs.length (by simp only [List.length_cons]; omega) hgo (hangs_cons hrest).1
              (inside_next m'.next cs) rfl
          | close hquote hstep =>
            exact ⟨_, hstep m' tail (hcolumn (ne_space_of_quote hquote)) htail⟩

end Quoted

namespace Page

open Text

theorem isBlank_of_isSpacing {c : Char} (h : isSpacing c = true) : isBlank c = true := by
  simp only [isSpacing, isGap, isBreak, Bool.or_eq_true, beq_iff_eq] at h
  rcases h with (rfl | rfl) | (((rfl | rfl) | rfl) | rfl) | rfl
  all_goals decide

/-- All of a text is one scalar. -/
inductive Spelled : List Char → List Char → ScalarStyle → Prop where
  | quoted {q : Quoted.Quote} {cs text : List Char} {m : Mark}
      (h : Quoted.go q Mark.start.next [] Gap.none .text cs = some (text, ⟨[], m⟩)) :
      Spelled (q.char :: cs) text q.style
  | plain {c : Char} {cs text : List Char} {broken : Bool} {m : Mark}
      (hopens : opensPlain (c::cs) = true)
      (h : Plain.go (blockContext 0) Mark.start [] Gap.none (c::cs) =
        some ⟨text, broken, ⟨[], m⟩⟩) :
      Spelled (c::cs) text .plain

theorem quote?_some {c : Char} {q : Quoted.Quote} (h : quote? c = some q) : c = q.char := by
  unfold quote? at h
  split at h
  · obtain rfl := Option.some.inj h
    assumption
  · split at h
    · obtain rfl := Option.some.inj h
      assumption
    · cases h

theorem spelled_of {raw text : List Char} {style : ScalarStyle}
    (h : spelled? raw = some (text, style)) : Spelled raw text style := by
  cases raw with
  | nil => cases h
  | cons c cs =>
    rw [spelled?] at h
    cases hquote : quote? c with
    | some q =>
      obtain rfl := quote?_some hquote
      rw [hquote] at h
      obtain ⟨⟨t, rest, m⟩, hscan, h⟩ := Option.bind_eq_some_iff.mp h
      simp only [Option.ite_none_right_eq_some, List.isEmpty_iff] at h
      obtain ⟨rfl, h⟩ := h
      cases h
      exact .quoted hscan
    | none =>
      rw [hquote] at h
      simp only [Option.ite_none_right_eq_some] at h
      obtain ⟨hopens, h⟩ := h
      obtain ⟨⟨t, broken, rest, m⟩, hscan, h⟩ := Option.bind_eq_some_iff.mp h
      simp only [Option.ite_none_right_eq_some, List.isEmpty_iff] at h
      obtain ⟨rfl, h⟩ := h
      cases h
      exact .plain hopens hscan

theorem opensPlain_cons {c : Char} {cs : List Char} (h : opensPlain (c::cs) = true) :
    ((isSpacing c = false ∧ isIndicator c = false) ∨
      (c = '-' ∨ c = '?' ∨ c = ':') ∧ atSpacing cs = false) ∧
        isDocumentMarker (c::cs) = false ∧ c ≠ byteOrderMark := by
  simp only [opensPlain, Bool.and_eq_true, Bool.or_eq_true, Bool.not_eq_true',
    Bool.or_eq_false_iff, bne_iff_ne, List.contains_iff_mem] at h
  obtain ⟨⟨h, hmarker⟩, hmark⟩ := h
  refine ⟨h.imp_right fun hsign => ⟨?_, hsign.2⟩, hmarker, hmark⟩
  simpa using hsign.1

theorem Spelled.head {raw text : List Char} {style : ScalarStyle} (h : Spelled raw text style) :
    ∃ c cs, raw = c::cs ∧ isSpacing c = false ∧ c ≠ '#' ∧ c ≠ '|' ∧ c ≠ '>' ∧
      c ≠ byteOrderMark := by
  cases h with
  | @quoted q cs text m h => exact ⟨q.char, cs, rfl, by cases q <;> decide⟩
  | @plain c cs text broken m hopens h =>
    obtain ⟨hc, -, hmark⟩ := opensPlain_cons hopens
    refine ⟨c, cs, rfl, ?_⟩
    rcases hc with ⟨hspacing, hindicator⟩ | ⟨rfl | rfl | rfl, -⟩
    · refine ⟨hspacing, ?_, ?_, ?_, hmark⟩
      all_goals
        rintro rfl
        cases hindicator
    all_goals decide

section Hanging

theorem isInline_ne {c d : Char} (h : isInline c = true) (hd : isBreak d = true) : c ≠ d := by
  rintro rfl
  rw [isInline, hd, Bool.not_true, Bool.and_false] at h
  cases h

theorem isBreak_of_isInline {c : Char} (h : isInline c = true) : isBreak c = false := by
  simpa using (Bool.and_eq_true_iff.mp h).2

theorem all_isInline {cs : List Char} (h : cs.all isGraphic = true) : cs.all isInline = true := by
  rw [List.all_eq_true] at h ⊢
  intro c hc
  rw [isInline, isPrintable_of_isGraphic (h c hc), isBreak_of_isGraphic (h c hc)]
  rfl

theorem hangs_inline {l : List Char} (h : l.all isInline = true) (rest : List Char) :
    hangs (l ++ rest) = hangs rest := by
  induction l with
  | nil => rfl
  | cons c l ih =>
    rw [List.all_cons, Bool.and_eq_true] at h
    rw [List.cons_append, hangs, if_neg (isInline_ne h.1 (by decide)), isBreak_of_isInline h.1,
      ih h.2]
    rfl

theorem goesOn_cases {l : List Char} (h : goesOn l = true) :
    l.all isInline = true ∧ (l = [] ∨ ∃ cs, l = ' ' :: cs) ∧
      (trimStart l).head?.all (· != '#') = true := by
  simp only [goesOn, Bool.and_eq_true] at h
  refine ⟨h.1.1, ?_, h.2⟩
  cases l with
  | nil => exact Or.inl rfl
  | cons c cs =>
    obtain rfl : c = ' ' := by simpa using h.1.2
    exact Or.inr ⟨cs, rfl⟩

theorem hangs_later {ls : List (List Char)} (h : ls.all goesOn = true) :
    hangs (ls.flatMap (['\n'] ++ ·)) = true ∧ atIndent (ls.flatMap (['\n'] ++ ·)) = true := by
  induction ls with
  | nil => exact ⟨rfl, rfl⟩
  | cons l ls ih =>
    rw [List.all_cons, Bool.and_eq_true] at h
    obtain ⟨hinline, hl, -⟩ := goesOn_cases h.1
    obtain ⟨hhangs, hindent⟩ := ih h.2
    refine ⟨?_, rfl⟩
    have hstart : atIndent (l ++ ls.flatMap (['\n'] ++ ·)) = true := by
      rcases hl with rfl | ⟨cs, rfl⟩
      · exact hindent
      · rfl
    have hrest : hangs (l ++ ls.flatMap (['\n'] ++ ·)) = true := by
      rw [hangs_inline hinline]
      exact hhangs
    rw [List.flatMap_cons, List.append_assoc]
    change hangs ('\n' :: (l ++ ls.flatMap (['\n'] ++ ·))) = true
    rw [hangs, if_pos rfl, hstart, hrest]
    rfl

theorem Scalar.written_line {s : Scalar} (h : s.later = []) (newline : List Char) :
    s.written newline = s.first := by
  rw [Scalar.written, glued, h]
  exact List.append_nil s.first

theorem Scalar.hangs_written (s : Scalar) : hangs (s.written ['\n']) = true := by
  rw [Scalar.written, glued, hangs_inline s.inline]
  exact (hangs_later s.hanging).1

theorem Scalar.last_written (s : Scalar) : ∀ c ∈ (s.written ['\n']).getLast?, isBlank c = false := by
  intro c hc
  have hends := s.ends
  rw [← Scalar.written, hc] at hends
  simpa using hends

theorem isSpacing_last {cs : List Char} (h : ∀ c ∈ cs.getLast?, isBlank c = false) :
    ∀ c ∈ cs.getLast?, isSpacing c = false := by
  intro c hc
  rw [Bool.eq_false_iff]
  intro hspacing
  have hblank := isBlank_of_isSpacing hspacing
  rw [h c hc] at hblank
  cases hblank

theorem Scalar.spelled_written (s : Scalar) : Spelled (s.written ['\n']) s.text s.style :=
  spelled_of s.spelled

end Hanging

end Page

end SlideDirectives.Yaml
