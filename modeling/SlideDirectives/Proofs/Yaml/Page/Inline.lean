import SlideDirectives.Proofs.Yaml.Page.Tokens

/-!
# Fields of a page on the line of their key

The scan for the quote that closes a value stops where the scalar ends, and no
mark of a comment is found in a plain one. So a value of one line is found as
it is written, and of a longer one some part from its start on.
-/

set_option autoImplicit false

namespace SlideDirectives.Yaml.Page

open Text

section Quoted

variable {q : Quoted.Quote} {m m₁ : Mark} {acc cs t tail : List Char} {gap : Gap}
  {mode : Quoted.Mode} {c : Char}

theorem closeGo_pass (hquote : c ≠ q.char) (hescape : ¬ (q = .double ∧ c = '\\'))
    (cs : List Char) :
    Entry.closeGo q.char (c::cs) = (Entry.closeGo q.char cs).map (c :: ·) := by
  cases cs with
  | nil => simp [Entry.closeGo, hquote]
  | cons d cs =>
    have hspecial : ¬ ((c = '\\' ∧ q.char = '\x22') ∨
        (c = '\x27' ∧ q.char = '\x27' ∧ d = '\x27')) := by
      rintro (⟨hc, hq⟩ | ⟨hc, hq, -⟩)
      · cases q with
        | single => cases hq
        | double => exact hescape ⟨rfl, hc⟩
      · exact hquote (hc.trans hq.symm)
    rw [Entry.closeGo, if_neg hspecial, if_neg hquote]

theorem closeGo_close (htail : ¬ Quoted.Doubles q tail) :
    Entry.closeGo q.char (q.char :: tail) = some [q.char] := by
  cases tail with
  | nil => simp [Entry.closeGo]
  | cons d tail =>
    have hspecial : ¬ ((q.char = '\\' ∧ q.char = '\x22') ∨
        (q.char = '\x27' ∧ q.char = '\x27' ∧ d = '\x27')) := by
      rintro (⟨hbackslash, -⟩ | ⟨hsingle, -, rfl⟩)
      · cases q <;> cases hbackslash
      · cases q with
        | single => exact htail ⟨rfl, rfl⟩
        | double => cases hsingle
    rw [Entry.closeGo, if_neg hspecial, if_pos rfl]

/-- The scan for the closing quote finds all that is left, behind the escaped
character if one is due. -/
def Closes (q : Quoted.Quote) (tail : List Char) : Quoted.Mode → List Char → Prop
  | .escape, cs => ∃ c ds, cs = c::ds ∧ Entry.closeGo q.char (ds ++ tail) = some ds
  | _, cs => Entry.closeGo q.char (cs ++ tail) = some cs

theorem Closes.closeGo_eq (h : Closes q tail mode cs) (hmode : mode ≠ .escape) :
    Entry.closeGo q.char (cs ++ tail) = some cs := by
  cases mode with
  | escape => exact absurd rfl hmode
  | text => exact h
  | code digits value => exact h

theorem hexDigit?_quote (q : Quoted.Quote) : hexDigit? q.char = none := by
  cases q <;> decide

theorem closes_of_go (h : Quoted.go q m acc gap mode cs = some (t, ⟨[], m₁⟩))
    (hline : cs.all isInline = true) (htail : ¬ Quoted.Doubles q tail) : Closes q tail mode cs := by
  induction hn : cs.length using Nat.strongRecOn generalizing m acc gap mode cs with
  | ind n ih =>
    subst hn
    cases cs with
    | nil => simp [Quoted.go] at h
    | cons c cs =>
      rw [List.all_cons, Bool.and_eq_true] at hline
      have hbreak := isBreak_of_isInline hline.1
      have hreturn : c ≠ '\r' := isInline_ne hline.1 (by decide)
      have hnext : ∀ {m acc gap mode}, Quoted.go q m acc gap mode cs = some (t, ⟨[], m₁⟩) →
          Closes q tail mode cs :=
        fun h => ih cs.length (Nat.lt_succ_self _) h hline.2 rfl
      have hpass : c ≠ q.char → ¬ (q = .double ∧ c = '\\') →
          Entry.closeGo q.char (cs ++ tail) = some cs →
          Entry.closeGo q.char (c::cs ++ tail) = some (c::cs) := by
        intro hquote hescape hcs
        rw [List.cons_append, closeGo_pass hquote hescape, hcs]
        rfl
      cases mode with
      | code digits value =>
        obtain ⟨hdigit, acc', mode', hmode, hstep⟩ := Quoted.step_code h
        rw [hstep] at h
        apply hpass _ _ ((hnext h).closeGo_eq hmode)
        · rintro rfl
          exact hdigit (hexDigit?_quote q)
        · rintro ⟨-, rfl⟩
          exact hdigit rfl
      | escape =>
        obtain ⟨acc', mode', hmode, hstep⟩ := Quoted.step_escape hreturn hbreak h
        rw [hstep] at h
        exact ⟨c, cs, rfl, (hnext h).closeGo_eq hmode⟩
      | text =>
        cases Quoted.step_text hreturn hbreak h with
        | pass hquote hmode hgo hstep =>
          by_cases hescape : q = .double ∧ c = '\\'
          · obtain rfl := hmode.mpr hescape
            obtain ⟨rfl, rfl⟩ := hescape
            obtain ⟨d, ds, rfl, hds⟩ := hnext hgo
            change Entry.closeGo '\x22' ('\\' :: d :: (ds ++ tail)) = _
            rw [Entry.closeGo, if_pos (Or.inl ⟨rfl, rfl⟩)]
            change (Entry.closeGo Quoted.Quote.double.char (ds ++ tail)).map _ = _
            rw [hds]
            rfl
          · exact hpass hquote hescape ((hnext hgo).closeGo_eq (mt hmode.mp hescape))
        | @doubled ds _ _ hquote hsingle hgo hstep =>
          subst hsingle hquote
          have hds : Entry.closeGo '\x27' (ds ++ tail) = some ds := by
            rw [List.all_cons, Bool.and_eq_true] at hline
            exact ih ds.length (by simp only [List.length_cons]; omega) hgo hline.2.2 rfl
          change Entry.closeGo '\x27' ('\x27' :: '\x27' :: (ds ++ tail)) = _
          rw [Entry.closeGo, if_pos (Or.inr ⟨rfl, rfl, rfl⟩), hds]
          rfl
        | close hquote hstep =>
          subst hquote
          exact closeGo_close htail

end Quoted

section Plain

variable {m m₁ : Mark} {acc cs t : List Char} {gap : Gap} {broken : Bool}

theorem go_inline {c : Char} (hc : isInline c = true)
    (h : Plain.go (blockContext 0) m acc gap (c::cs) = some ⟨t, broken, ⟨[], m₁⟩⟩) :
    (isGap c = true ∧
      Plain.go (blockContext 0) m.next acc (gap.addBlank c) cs = some ⟨t, broken, ⟨[], m₁⟩⟩) ∨
    (isGap c = false ∧ (!gap.isNone && c == '#') = false ∧
      Plain.go (blockContext 0) m.next (c :: (gap.text.reverse ++ acc)) Gap.none cs =
        some ⟨t, broken, ⟨[], m₁⟩⟩) := by
  have hstops : ∀ b', (some ⟨acc.reverse, b', ⟨c::cs, m⟩⟩ : Option Plain.Result) ≠
      some ⟨t, broken, ⟨[], m₁⟩⟩ := by
    simp
  rw [Plain.go_cons (isInline_ne hc (by decide)),
    if_neg (ne_true_of_eq_false (isBreak_of_isInline hc))] at h
  by_cases hgap : isGap c = true
  · rw [if_pos hgap, Plain.tab_indent_zero, if_neg Bool.false_ne_true] at h
    exact Or.inl ⟨hgap, h⟩
  · rw [if_neg hgap] at h
    split at h
    · exact absurd h (hstops _)
    · rename_i hscalar
      rw [refused_block, if_neg Bool.false_ne_true] at h
      split at h
      · exact absurd h (hstops _)
      · refine Or.inr ⟨eq_false_of_ne_true hgap, ?_, h⟩
        cases hnone : gap.isNone with
        | true => rfl
        | false =>
          rw [hnone, Bool.not_false, Bool.true_and] at hscalar
          exact (Bool.or_eq_false_iff.mp (eq_false_of_ne_true hscalar)).2

theorem last_cons {c : Char} (hlast : ∀ d ∈ (c::cs).getLast?, isSpacing d = false) :
    (∀ d ∈ cs.getLast?, isSpacing d = false) ∧ (isGap c = true → cs ≠ []) := by
  constructor
  · intro d hd
    cases cs with
    | nil => cases hd
    | cons e es => exact hlast d (by simpa using hd)
  · rintro hgap rfl
    have hspacing := hlast c rfl
    rw [isSpacing, hgap] at hspacing
    cases hspacing

theorem beforeComment_go
    (h : Plain.go (blockContext 0) m acc gap cs = some ⟨t, broken, ⟨[], m₁⟩⟩)
    (hline : cs.all isInline = true) (hlast : ∀ c ∈ cs.getLast?, isSpacing c = false)
    (tail : List Char) :
    Entry.beforeComment (!gap.isNone) (cs ++ tail) =
      cs ++ Entry.beforeComment (if cs = [] then !gap.isNone else false) tail := by
  induction cs generalizing m acc gap with
  | nil => rfl
  | cons c cs ih =>
    rw [List.all_cons, Bool.and_eq_true] at hline
    obtain ⟨hlater, hne⟩ := last_cons hlast
    rw [List.cons_append, Entry.beforeComment, if_neg (List.cons_ne_nil c cs)]
    rcases go_inline hline.1 h with ⟨hgap, h⟩ | ⟨hgap, hhash, h⟩
    · have hhash : (c == '#') = false := by
        rw [beq_eq_false_iff_ne]
        rintro rfl
        cases hgap
      have hrest := ih h hline.2 hlater
      rw [addBlank_isNone, if_neg (hne hgap)] at hrest
      rw [hhash, Bool.and_false, if_neg Bool.false_ne_true, hgap]
      exact congrArg (c :: ·) hrest
    · have hrest := ih h hline.2 hlater
      have hnone : (if cs = [] then !Gap.none.isNone else false) = false := ite_self _
      rw [hnone] at hrest
      rw [hhash, if_neg Bool.false_ne_true, hgap]
      exact congrArg (c :: ·) hrest

theorem text_go (h : Plain.go (blockContext 0) m acc gap cs = some ⟨t, broken, ⟨[], m₁⟩⟩)
    (hline : cs.all isInline = true) (hlast : ∀ c ∈ cs.getLast?, isSpacing c = false)
    (hbroken : gap.broken = false) :
    t = acc.reverse ++ (if cs = [] then [] else gap.text ++ cs) := by
  induction cs generalizing m acc gap with
  | nil =>
    obtain ⟨rfl, -⟩ := Plain.Result.mk.inj (Option.some.inj h)
    exact (List.append_nil _).symm
  | cons c cs ih =>
    rw [List.all_cons, Bool.and_eq_true] at hline
    obtain ⟨hlater, hne⟩ := last_cons hlast
    rw [if_neg (List.cons_ne_nil c cs)]
    rcases go_inline hline.1 h with ⟨hgap, h⟩ | ⟨-, -, h⟩
    · have hblank : gap.addBlank c = { gap with blanks := c::gap.blanks } := by
        rw [Gap.addBlank, hbroken]
        rfl
      rw [hblank] at h
      rw [ih h hline.2 hlater hbroken, if_neg (hne hgap)]
      simp [Gap.text, hbroken]
    · rw [ih h hline.2 hlater rfl]
      by_cases hcs : cs = []
      · simp [hcs]
      · simp [hcs, Gap.text, Gap.none]

end Plain

section Line

theorem beforeComment_tail (afterGap : Bool) (n : Nat) (note : Option Note) :
    ∀ c ∈ Entry.beforeComment afterGap (List.replicate n ' ' ++ noteChars note),
      isBlank c = true := by
  have hspace : isBlank ' ' = true := by decide
  induction n generalizing afterGap with
  | zero =>
    cases note with
    | none => simp [noteChars, Entry.beforeComment]
    | some comment => simp [noteChars, Entry.beforeComment, isGap, hspace]
  | succ n ih =>
    intro c hc
    rw [List.replicate_succ, List.cons_append, Entry.beforeComment,
      show (' ' == '#') = false from rfl, Bool.and_false, if_neg Bool.false_ne_true] at hc
    rcases List.mem_cons.mp hc with rfl | hc
    · exact hspace
    · exact ih (isGap ' ') c hc

theorem inlineValue?_some {c : Char} (hc : c ≠ '#') (cs : List Char) :
    ∃ v, Entry.inlineValue? (c::cs) = some v := by
  simp only [Entry.inlineValue?, if_neg hc]
  split
  · exact ⟨_, rfl⟩
  · exact ⟨_, rfl⟩

theorem trimEnd_last {cs : List Char} (h : ∀ c ∈ cs.getLast?, isBlank c = false) :
    trimEnd cs = cs := by
  rcases List.eq_nil_or_concat cs with rfl | ⟨before, c, rfl⟩
  · rfl
  · rw [List.concat_eq_append] at h ⊢
    exact dropEndWhile_concat before (h c (by simp))

/-- A scalar of one line is the value that is found on its line. -/
theorem inlineValue?_spelled {raw text : List Char} {style : ScalarStyle}
    (h : Spelled raw text style) (hline : raw.all isInline = true)
    (hlast : ∀ c ∈ raw.getLast?, isBlank c = false) (n : Nat) (note : Option Note) :
    Entry.inlineValue? (raw ++ (List.replicate n ' ' ++ noteChars note)) = some raw := by
  have hspacing := isSpacing_last hlast
  cases h with
  | @quoted q cs text m hgo =>
    have htail : ¬ Quoted.Doubles q (List.replicate n ' ' ++ noteChars note) := by
      have hhead := @head_tail [] n note (Or.inl rfl)
      rw [List.append_nil] at hhead
      exact fun hdouble => hhead hdouble.2
    rw [List.all_cons, Bool.and_eq_true] at hline
    have hclose : Entry.closeGo q.char (cs ++ (List.replicate n ' ' ++ noteChars note)) = some cs :=
      closes_of_go hgo hline.2 htail
    have hhash : q.char ≠ '#' := by cases q <;> decide
    have hquote : Entry.isQuote q.char = true := by cases q <;> decide
    simp only [List.cons_append, Entry.inlineValue?, if_neg hhash, hquote, if_true, Entry.quoted?,
      hclose, Option.map_some, Option.getD_some]
  | @plain c cs text broken m hopens hgo =>
    obtain ⟨d, ds, hraw, -, hhash, -⟩ := (Spelled.plain hopens hgo).head
    obtain ⟨rfl, rfl⟩ := List.cons.inj hraw
    have hquote : Entry.isQuote c = false := by
      obtain ⟨⟨-, hindicator⟩ | ⟨rfl | rfl | rfl, -⟩, -⟩ := opensPlain_cons hopens
      · rw [Bool.eq_false_iff]
        intro hquote
        rcases Bool.or_eq_true_iff.mp hquote with hquote | hquote
        all_goals
          rw [eq_of_beq hquote] at hindicator
          cases hindicator
      all_goals rfl
    have hbefore := beforeComment_go hgo hline hspacing (List.replicate n ' ' ++ noteChars note)
    rw [if_neg (List.cons_ne_nil c cs)] at hbefore
    have htrim : trimEnd (Entry.beforeComment false
        (c::cs ++ (List.replicate n ' ' ++ noteChars note))) = c::cs := by
      change trimEnd (Entry.beforeComment (!Gap.none.isNone) _) = _
      rw [hbefore, trimEnd, dropEndWhile_append_all (beforeComment_tail false n note)]
      exact trimEnd_last hlast
    rw [List.cons_append] at htrim ⊢
    simp only [Entry.inlineValue?, if_neg hhash, hquote, Bool.false_eq_true, if_false, htrim]

theorem Spelled.text_eq {raw text : List Char} {style : ScalarStyle} (h : Spelled raw text style)
    (hline : raw.all isInline = true) (hlast : ∀ c ∈ raw.getLast?, isBlank c = false)
    (hquote : ∀ c ∈ raw.head?, Entry.isQuote c = false) : text = raw ∧ style = .plain := by
  cases h with
  | @quoted q cs text m hgo =>
    have hfalse := hquote q.char rfl
    cases q <;> cases hfalse
  | @plain c cs text broken m hopens hgo => exact ⟨text_go hgo hline (isSpacing_last hlast) rfl, rfl⟩

theorem byteSize_spaces (n : Nat) : byteSize (List.replicate n ' ') = n := by
  induction n with
  | zero => rfl
  | succ n ih =>
    rw [List.replicate_succ, byteSize, ih, show (' ' : Char).utf8Size = 1 from rfl]
    omega

theorem writtenKey?_key (k : Key) {rest : List Char} (h : rest.head?.all isGap = true) :
    Entry.writtenKey? (k.chars ++ ':' :: rest) = some k.chars := by
  obtain ⟨c, cs, hcs, hstart, hall⟩ := isKey_cons k.wellFormed
  have hplain := plainKey?_word hall h
  rw [hcs] at hplain ⊢
  simp only [List.cons_append] at hplain ⊢
  simp only [Entry.writtenKey?, isQuote_word (isWord_of_isKeyStart hstart),
    opensOther_keyStart _ hstart, Bool.false_eq_true, if_false, hplain]

theorem trimEnd_key (k : Key) : trimEnd k.chars = k.chars := by
  apply dropEndWhile_eq_self
  exact fun c hc => isBlank_of_isWord (List.all_eq_true.mp k.isWord c hc)

theorem ofLine?_key (k : Key) {n : Nat} {rest : List Char} (hn : 0 < n ∨ rest = [])
    (hrest : ∀ c ∈ rest.head?, isGap c = false) :
    Entry.ofLine? (k.chars ++ ':' :: (List.replicate n ' ' ++ rest)) =
      some ⟨⟨0, byteSize k.chars⟩,
        (Entry.inlineValue? rest).map (fun v =>
          ⟨byteSize k.chars + 1 + n, byteSize k.chars + 1 + n + byteSize v⟩),
        byteSize (trimEnd (k.chars ++ ':' :: (List.replicate n ' ' ++ rest)))⟩ := by
  have hgap : (List.replicate n ' ' ++ rest).head?.all isGap = true := by
    cases n with
    | succ n => rfl
    | zero =>
      obtain rfl := hn.resolve_left (Nat.lt_irrefl 0)
      rfl
  have htake : (List.replicate n ' ' ++ rest).takeWhile isGap = List.replicate n ' ' := by
    have hspaces : ∀ c ∈ List.replicate n ' ', isGap c = true := by
      intro c hc
      rw [(List.mem_replicate.mp hc).2]
      rfl
    have hstop : rest.takeWhile isGap = [] := by
      cases rest with
      | nil => rfl
      | cons c cs => rw [List.takeWhile_cons, hrest c rfl]; rfl
    rw [List.takeWhile_append_of_pos hspaces, hstop, List.append_nil]
  have hkeyne : k.chars.isEmpty = false := by
    obtain ⟨c, cs, hcs, -⟩ := isKey_cons k.wellFormed
    rw [hcs]
    rfl
  have hcolon : isGap ':' = false := rfl
  have hdrop : (k.chars ++ ':' :: (List.replicate n ' ' ++ rest)).drop k.chars.length =
      ':' :: (List.replicate n ' ' ++ rest) := List.drop_left
  have hvalue : (List.replicate n ' ' ++ rest).drop (List.replicate n ' ').length = rest :=
    List.drop_left
  simp only [Entry.ofLine?, writtenKey?_key k hgap, Option.bind_eq_bind, Option.bind_some, hdrop,
    trimEnd_key, List.takeWhile_cons, hcolon, Bool.false_eq_true, if_false, List.length_nil,
    List.drop_zero, hkeyne, htake, hvalue, byteSize_spaces, byteSize, Nat.add_zero]

end Line

end SlideDirectives.Yaml.Page
