import SlideDirectives.Proofs.Yaml.Page.Scalar

/-!
# Between the fields of a page

From the end of a scalar, and from the start of any line, white space and
comments lead to the next field. A plain scalar is read on over the line
breaks behind it, and ends before that field all the same.
-/

set_option autoImplicit false

namespace SlideDirectives.Yaml.Page

open Text

def behind (rows : List Row) : List Char :=
  (rows.flatMap Row.lines).flatMap (['\n'] ++ ·)

def target (rows : List Row) : List Char :=
  joined ['\n'] (rows.dropWhile (·.field?.isNone))

theorem Field.lines_cons (f : Field) :
    ∃ c cs ls, f.lines = (c::cs) :: ls ∧ isKeyStart c = true := by
  obtain ⟨c, rest, hcs, hstart, -⟩ := isKey_cons f.key.wellFormed
  cases hvalue : f.value with
  | none =>
    refine ⟨c, rest ++ ':' :: f.tail, [], ?_, hstart⟩
    simp only [Field.lines, hvalue, hcs, List.cons_append]
  | some s =>
    refine ⟨c, rest ++ ':' :: List.replicate (f.gap + 1) ' ' ++ (s.first ++ f.tail), s.later, ?_,
      hstart⟩
    simp only [Field.lines, Field.lead, hvalue, hcs, List.cons_append]

theorem Field.chars_cons (newline : List Char) (f : Field) :
    ∃ c rest, f.chars newline = c::rest ∧ isKeyStart c = true := by
  obtain ⟨c, cs, ls, hlines, hstart⟩ := f.lines_cons
  refine ⟨c, cs ++ ls.flatMap (newline ++ ·), ?_, hstart⟩
  rw [Field.chars, hlines, glued, List.cons_append]

theorem Row.lines_cons (r : Row) : ∃ l ls, r.lines = l::ls := by
  cases r with
  | fill n note => exact ⟨_, [], rfl⟩
  | field f =>
    obtain ⟨c, cs, ls, hlines, -⟩ := f.lines_cons
    exact ⟨c::cs, ls, hlines⟩

theorem spaces_inline (n : Nat) : (List.replicate n ' ').all isInline = true :=
  List.all_eq_true.mpr fun c hc => by
    rw [(List.mem_replicate.mp hc).2]
    decide

theorem Scalar.lines_inline (s : Scalar) : ∀ l ∈ s.first :: s.later, l.all isInline = true := by
  intro l hl
  rcases List.mem_cons.mp hl with rfl | hl
  · exact s.inline
  · exact (goesOn_cases (List.all_eq_true.mp s.hanging l hl)).1

theorem Field.key_inline (f : Field) : f.key.chars.all isInline = true := by
  apply all_isInline
  rw [List.all_eq_true]
  exact fun c hc => isGraphic_of_isWord (List.all_eq_true.mp f.key.isWord c hc)

theorem Field.lead_inline (f : Field) : f.lead.all isInline = true := by
  have hcolon : isInline ':' = true := by decide
  rw [Field.lead, List.all_append, List.all_cons, f.key_inline, hcolon, spaces_inline]
  rfl

theorem Field.tail_inline (f : Field) : f.tail.all isInline = true := by
  rw [Field.tail, List.all_append, spaces_inline, all_isInline (noteChars_graphic f.note)]
  rfl

theorem Field.lines_inline (f : Field) : ∀ l ∈ f.lines, l.all isInline = true := by
  have hcolon : isInline ':' = true := by decide
  intro l hl
  cases hvalue : f.value with
  | none =>
    simp only [Field.lines, hvalue, List.mem_singleton] at hl
    rw [hl, List.all_append, List.all_cons, f.key_inline, hcolon, f.tail_inline]
    rfl
  | some s =>
    simp only [Field.lines, hvalue, List.mem_cons] at hl
    rcases hl with rfl | hl
    · rw [List.all_append, List.all_append, f.lead_inline, s.inline, f.tail_inline]
      rfl
    · exact s.lines_inline l (List.mem_cons_of_mem _ hl)

theorem Row.lines_inline (r : Row) : ∀ l ∈ r.lines, l.all isInline = true := by
  cases r with
  | field f => exact f.lines_inline
  | fill n note =>
    intro l hl
    obtain rfl := List.mem_singleton.mp hl
    rw [List.all_append, spaces_inline, all_isInline (hashChars_graphic note)]
    rfl

theorem rows_inline (rows : List Row) : ∀ l ∈ rows.flatMap Row.lines, l.all isInline = true := by
  intro l hl
  obtain ⟨r, -, hl⟩ := List.mem_flatMap.mp hl
  exact r.lines_inline l hl

theorem all_glued {p : Char → Bool} {newline : List Char} {ls : List (List Char)}
    (hnewline : newline.all p = true) (h : ∀ l ∈ ls, l.all p = true) :
    (glued newline ls).all p = true := by
  cases ls with
  | nil => rfl
  | cons l ls =>
    rw [glued, List.all_append, h l List.mem_cons_self, Bool.true_and, List.all_flatMap,
      List.all_eq_true]
    intro l' hl'
    rw [List.all_append, hnewline, h l' (List.mem_cons_of_mem l hl')]
    rfl

theorem joined_cons (newline : List Char) (r : Row) (rows : List Row) :
    joined newline (r::rows) =
      glued newline r.lines ++ (rows.flatMap Row.lines).flatMap (newline ++ ·) := by
  obtain ⟨l, ls, hlines⟩ := r.lines_cons
  rw [joined, List.flatMap_cons, hlines, List.cons_append, glued, glued, List.flatMap_append,
    List.append_assoc]

theorem behind_cons (r : Row) (rows : List Row) :
    behind (r::rows) = '\n' :: joined ['\n'] (r::rows) := by
  obtain ⟨l, ls, hlines⟩ := r.lines_cons
  simp [behind, joined, glued, hlines]

theorem length_behind (rows : List Row) : (joined ['\n'] rows).length ≤ (behind rows).length := by
  cases rows with
  | nil => exact Nat.le_refl _
  | cons r rows =>
    rw [behind_cons, List.length_cons]
    exact Nat.le_succ _

theorem joined_fill (n : Nat) (note : Option Note) (rows : List Row) :
    joined ['\n'] (.fill n note :: rows) =
      List.replicate n ' ' ++ (hashChars note ++ behind rows) := by
  rw [joined_cons]
  simp [Row.lines, glued, behind]

theorem joined_field (f : Field) (rows : List Row) :
    joined ['\n'] (.field f :: rows) = f.chars ['\n'] ++ behind rows :=
  joined_cons ['\n'] (.field f) rows

theorem target_fill (n : Nat) (note : Option Note) (rows : List Row) :
    target (.fill n note :: rows) = target rows := rfl

theorem target_field (f : Field) (rows : List Row) :
    target (.field f :: rows) = f.chars ['\n'] ++ behind rows :=
  joined_field f rows

/-- From the start of a line, white space and comments lead to `dest`, where a
key starts or the text ends. -/
inductive Clears : List Char → List Char → Prop where
  | last (n : Nat) (note : Option Note) : Clears (List.replicate n ' ' ++ hashChars note) []
  | key {c : Char} {cs : List Char} (h : isKeyStart c = true) : Clears (c::cs) (c::cs)
  | fill (n : Nat) (note : Option Note) {cs dest : List Char} (h : Clears cs dest) :
      Clears (List.replicate n ' ' ++ (hashChars note ++ '\n' :: cs)) dest

def Follows (after dest : List Char) : Prop :=
  (after = [] ∧ dest = []) ∨ ∃ cs, after = '\n' :: cs ∧ Clears cs dest

theorem Follows.endsLine {after dest : List Char} (h : Follows after dest) : EndsLine after :=
  h.imp And.left fun ⟨cs, hcs, _⟩ => ⟨cs, hcs⟩

theorem clears_joined (rows : List Row) : Clears (joined ['\n'] rows) (target rows) := by
  induction rows with
  | nil => exact .last 0 none
  | cons r rows ih =>
    cases r with
    | field f =>
      obtain ⟨c, rest, hchars, hstart⟩ := f.chars_cons ['\n']
      rw [target_field, joined_field, hchars]
      exact .key hstart
    | fill n note =>
      rw [target_fill, joined_fill]
      cases rows with
      | nil =>
        rw [show behind [] = [] from rfl, List.append_nil]
        exact .last n note
      | cons r rows =>
        rw [behind_cons]
        exact .fill n note ih

theorem follows_behind (rows : List Row) : Follows (behind rows) (target rows) := by
  cases rows with
  | nil => exact Or.inl ⟨rfl, rfl⟩
  | cons r rows => exact Or.inr ⟨_, behind_cons r rows, clears_joined (r::rows)⟩

/-- Passing white space and comments from `c` on leads to `dest`, where a line
starts and a key may stand, or to the end of the text. -/
def Leads (allowed : Bool) (c : Cursor) (dest : List Char) : Prop :=
  startsWith (· == byteOrderMark) c.rest = false ∧ ∀ fuel, c.rest.length < fuel →
    ∃ (a : Bool) (m : Mark), Scanner.skipGo false fuel allowed c = (a, ⟨dest, m⟩) ∧
      (dest ≠ [] → a = true ∧ m.column = 0)

theorem leads_key {c : Char} {cs : List Char} {m : Mark} (h : isKeyStart c = true)
    (hm : m.column = 0) : Leads true ⟨c::cs, m⟩ (c::cs) := by
  refine ⟨beq_of_eq h rfl, ?_⟩
  intro fuel hfuel
  cases fuel with
  | zero => cases hfuel
  | succ fuel => exact ⟨true, m, skipGo_word (isWord_of_isKeyStart h), fun _ => ⟨rfl, hm⟩⟩

variable {after dest : List Char}

theorem leads_fill {allowed : Bool} (n : Nat) (note : Option Note) (hafter : Follows after dest)
    (h : ∀ cs, after = '\n' :: cs → ∀ m : Mark, m.column = 0 → Leads true ⟨cs, m⟩ dest) (m : Mark) :
    Leads allowed ⟨List.replicate n ' ' ++ (hashChars note ++ after), m⟩ dest := by
  constructor
  · cases n with
    | succ n => rfl
    | zero =>
      cases note with
      | some comment => rfl
      | none => rcases hafter.endsLine with rfl | ⟨rest, rfl⟩ <;> rfl
  · intro fuel hfuel
    cases fuel with
    | zero => cases hfuel
    | succ fuel =>
      obtain ⟨m', hline⟩ := @skipGo_line fuel allowed n note _ hafter.endsLine m
      rw [hline]
      rcases hafter with ⟨rfl, rfl⟩ | ⟨cs, rfl, -⟩
      · exact ⟨allowed, m', rfl, fun hne => absurd rfl hne⟩
      · simp only [List.length_append, List.length_cons] at hfuel
        rw [List.isEmpty_cons, if_neg Bool.false_ne_true, List.tail_cons]
        exact (h cs rfl (m'.nextLine 1) rfl).2 fuel (by simp only; omega)

theorem leads_clears {cs : List Char} (h : Clears cs dest) (m : Mark) (hm : m.column = 0) :
    Leads true ⟨cs, m⟩ dest := by
  induction h generalizing m with
  | key hstart => exact leads_key hstart hm
  | last n note =>
    rw [← List.append_nil (hashChars note)]
    exact leads_fill n note (Or.inl ⟨rfl, rfl⟩) (fun cs hcs => by cases hcs) m
  | fill n note hcs ih =>
    refine leads_fill n note (Or.inr ⟨_, rfl, hcs⟩) ?_ m
    rintro cs heq
    cases heq
    exact ih

theorem leads_after (allowed : Bool) (n : Nat) (note : Option Note) (h : Follows after dest)
    (m : Mark) : Leads allowed ⟨List.replicate n ' ' ++ (hashChars note ++ after), m⟩ dest := by
  refine leads_fill n note h ?_ m
  rintro cs rfl
  rcases h with ⟨hnil, -⟩ | ⟨cs', hcs, h⟩
  · cases hnil
  · cases hcs
    exact leads_clears h

section Plain

open Plain

variable {m : Mark} {acc cs : List Char} {gap : Gap}

theorem addBlank_isNone (gap : Gap) (c : Char) : (gap.addBlank c).isNone = false := by
  rw [Gap.addBlank]
  split
  · rename_i hbroken
    simp [Gap.isNone, hbroken]
  · rfl

theorem addBreak_broken (gap : Gap) (c : Char) : (gap.addBreak c).broken = true := by
  rw [Gap.addBreak]
  split
  · assumption
  · rfl

theorem go_blanks {ctx : Plain.Context} (n : Nat) :
    ∃ gap', (0 < n ∨ gap.isNone = false → gap'.isNone = false) ∧
      go ctx m acc gap (List.replicate n ' ' ++ cs) = go ctx (m.plus n) acc gap' cs := by
  induction n generalizing m gap with
  | zero => exact ⟨gap, by simp, rfl⟩
  | succ n ih =>
    obtain ⟨gap', hsome, hgo⟩ := @ih m.next (gap.addBlank ' ')
    refine ⟨gap', fun _ => hsome (Or.inr (addBlank_isNone gap ' ')), ?_⟩
    rw [List.replicate_succ, List.cons_append, go_space, hgo, Mark.next_plus]

/-- White space and a comment end a scalar, unless the lines behind them do. -/
theorem go_fill (n : Nat) (note : Option Note) (hafter : Follows after dest)
    (hnote : note.isSome = true → 0 < n ∨ gap.isNone = false)
    (h : ∀ cs, after = '\n' :: cs → ∀ (m : Mark) (gap : Gap), m.column = 0 → gap.broken = true →
      ∃ broken c, go (blockContext 1) m acc gap cs = some ⟨acc.reverse, broken, c⟩ ∧
        Leads broken c dest) :
    ∃ broken c, go (blockContext 1) m acc gap (List.replicate n ' ' ++ (hashChars note ++ after)) =
      some ⟨acc.reverse, broken, c⟩ ∧ Leads broken c dest := by
  obtain ⟨gap', hsome, hgo⟩ := @go_blanks m acc (hashChars note ++ after) gap (blockContext 1) n
  rw [hgo]
  cases note with
  | some comment =>
    refine ⟨gap'.broken, _, go_hash (hsome (hnote rfl)), ?_⟩
    exact leads_after gap'.broken 0 (some comment) hafter (m.plus n)
  | none =>
    rcases hafter with ⟨rfl, rfl⟩ | ⟨cs, rfl, hcs⟩
    · exact ⟨gap'.broken, ⟨[], m.plus n⟩, rfl,
        leads_after gap'.broken 0 none (Or.inl ⟨rfl, rfl⟩) (m.plus n)⟩
    · rw [hashChars, List.nil_append, go_newline]
      exact h cs rfl ((m.plus n).nextLine 1) (gap'.addBreak '\n') rfl (addBreak_broken gap' '\n')

/-- Read on over line breaks, a plain scalar ends before the next field. -/
theorem go_clears {cs : List Char} (h : Clears cs dest) (hm : m.column = 0)
    (hgap : gap.broken = true) :
    ∃ broken c, go (blockContext 1) m acc gap cs = some ⟨acc.reverse, broken, c⟩ ∧
      Leads broken c dest := by
  induction h generalizing m gap with
  | last n note =>
    have hsome : gap.isNone = false := by rw [Gap.isNone, hgap, Bool.not_true, Bool.and_false]
    rw [← List.append_nil (hashChars note)]
    exact go_fill n note (Or.inl ⟨rfl, rfl⟩) (fun _ => Or.inr hsome) fun cs hcs => by cases hcs
  | fill n note hcs ih =>
    have hsome : gap.isNone = false := by rw [Gap.isNone, hgap, Bool.not_true, Bool.and_false]
    refine go_fill n note (Or.inr ⟨_, rfl, hcs⟩) (fun _ => Or.inr hsome) ?_
    rintro cs heq m gap hm hgap
    cases heq
    exact ih hm hgap
  | @key c cs hstart =>
    have hsome : gap.isNone = false := by rw [Gap.isNone, hgap, Bool.not_true, Bool.and_false]
    refine ⟨true, _, ?_, leads_key hstart hm⟩
    obtain ⟨hreturn, hbreak, hgapc, -⟩ := @word_passes cs c (isWord_of_isKeyStart hstart)
    rw [go_cons hreturn]
    simp [hbreak, hgapc, hsome, hgap, endsScalar, blockContext, hm]

theorem go_after (n : Nat) (note : Option Note) (h : Follows after dest) :
    ∃ broken c, go (blockContext 1) m acc Gap.none
        (List.replicate n ' ' ++ (noteChars note ++ after)) = some ⟨acc.reverse, broken, c⟩ ∧
      Leads broken c dest := by
  have hlater : ∀ cs, after = '\n' :: cs → ∀ (m : Mark) (gap : Gap), m.column = 0 →
      gap.broken = true → ∃ broken c,
        go (blockContext 1) m acc gap cs = some ⟨acc.reverse, broken, c⟩ ∧ Leads broken c dest := by
    rintro cs rfl m gap hm hgap
    rcases h with ⟨hnil, -⟩ | ⟨cs', hcs, h⟩
    · cases hnil
    · cases hcs
      exact go_clears h hm hgap
  cases note with
  | none => exact go_fill n none h (by simp) hlater
  | some comment =>
    have hspace : List.replicate n ' ' ++ (noteChars (some comment) ++ after) =
        List.replicate (n + 1) ' ' ++ (hashChars (some comment) ++ after) := by
      rw [List.replicate_succ', List.append_assoc]
      rfl
    rw [hspace]
    exact go_fill (n + 1) (some comment) h (fun _ => Or.inl (Nat.succ_pos n)) hlater

end Plain

end SlideDirectives.Yaml.Page
