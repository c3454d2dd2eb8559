import SlideDirectives.Proofs.Yaml.Page.Word

/-!
# White space and comments of a page

White space and a comment are passed before each token, up to the end of the
line or to a token on it.
-/

set_option autoImplicit false

namespace SlideDirectives.Yaml

def Mark.plus (m : Mark) (n : Nat) : Mark := ⟨m.index + n, m.line, m.column + n⟩

theorem Mark.plus_zero (m : Mark) : m.plus 0 = m := rfl

theorem Mark.next_plus (m : Mark) (n : Nat) : m.next.plus n = m.plus (n + 1) := by
  have hindex : m.index + 1 + n = m.index + (n + 1) := by omega
  have hcolumn : m.column + 1 + n = m.column + (n + 1) := by omega
  simp only [Mark.next, Mark.plus, hindex, hcolumn]

theorem Cursor.spanGo_append {p : Char → Bool} {cs rest : List Char} (m : Mark)
    (hcs : ∀ c ∈ cs, p c = true) (hrest : ∀ c ∈ rest.head?, p c = false) :
    Cursor.spanGo p m (cs ++ rest) = (cs, ⟨rest, m.plus cs.length⟩) := by
  induction cs generalizing m with
  | nil =>
    cases rest with
    | nil => rfl
    | cons c rest =>
      have hc : p c = false := hrest c rfl
      simp [Cursor.spanGo, hc, Mark.plus_zero]
  | cons c cs ih =>
    have hc : p c = true := hcs c List.mem_cons_self
    rw [List.cons_append, Cursor.spanGo, if_pos hc, ih m.next fun d hd => hcs d (by simp [hd])]
    rw [Mark.next_plus]
    rfl

theorem Cursor.skipWhile_append {p : Char → Bool} {cs rest : List Char} (m : Mark)
    (hcs : ∀ c ∈ cs, p c = true) (hrest : ∀ c ∈ rest.head?, p c = false) :
    Cursor.skipWhile p ⟨cs ++ rest, m⟩ = ⟨rest, m.plus cs.length⟩ := by
  rw [Cursor.skipWhile, Cursor.span, Cursor.spanGo_append m hcs hrest]

namespace Page

def EndsLine (after : List Char) : Prop :=
  after = [] ∨ ∃ rest, after = '\n' :: rest

theorem EndsLine.head {after : List Char} (h : EndsLine after) {p : Char → Bool}
    (hp : p '\n' = false) : ∀ c ∈ after.head?, p c = false := by
  rcases h with rfl | ⟨rest, rfl⟩
  · simp
  · simp [hp]

theorem head_hash {p : Char → Bool} (hhash : p '#' = false) (hnewline : p '\n' = false)
    (note : Option Note) {after : List Char} (h : EndsLine after) :
    ∀ c ∈ (hashChars note ++ after).head?, p c = false := by
  cases note with
  | none => exact h.head hnewline
  | some n => simp [hashChars, hhash]

theorem skipComment_hash (note : Option Note) {after : List Char} (h : EndsLine after) (m : Mark) :
    ∃ m' : Mark, Cursor.skipComment ⟨hashChars note ++ after, m⟩ = ⟨after, m'⟩ := by
  cases note with
  | none =>
    refine ⟨m, ?_⟩
    rcases h with rfl | ⟨rest, rfl⟩
    · rfl
    · rfl
  | some n =>
    have hall : ∀ c ∈ '#' :: n.text, (!isBreak c) = true := by
      intro c hc
      rcases List.mem_cons.mp hc with rfl | hc
      · rfl
      · rw [isBreak_of_isGraphic (List.all_eq_true.mp n.graphic c hc)]
        rfl
    refine ⟨m.plus ('#' :: n.text).length, ?_⟩
    exact Cursor.skipWhile_append m hall (h.head rfl)

/-- One line of white space and a comment. -/
theorem skipGo_line {fuel : Nat} (allowed : Bool) (n : Nat) (note : Option Note)
    {after : List Char} (h : EndsLine after) (m : Mark) :
    ∃ m' : Mark,
      Scanner.skipGo false (fuel + 1) allowed
          ⟨List.replicate n ' ' ++ (hashChars note ++ after), m⟩ =
        if after.isEmpty then (allowed, ⟨[], m'⟩)
        else Scanner.skipGo false fuel true ⟨after.tail, m'.nextLine 1⟩ := by
  have hspaces : ∀ c ∈ List.replicate n ' ',
      (c == ' ' || ((false || !allowed) && c == '\t')) = true := by
    intro c hc
    rw [(List.mem_replicate.mp hc).2]
    rfl
  have hskip := Cursor.skipWhile_append m hspaces
    (head_hash (by simp) (by simp) note h)
  obtain ⟨m', hcomment⟩ := skipComment_hash note h (m.plus (List.replicate n ' ').length)
  refine ⟨m', ?_⟩
  rw [Scanner.skipGo, hskip]
  simp only [hcomment]
  rcases h with rfl | ⟨rest, rfl⟩
  · rfl
  · simp [startsWith, Cursor.skipBreak, isBreak]

theorem skipGo_stop {fuel : Nat} {allowed : Bool} {c : Char} {cs : List Char} {m : Mark} (n : Nat)
    (hspace : c ≠ ' ') (htab : c ≠ '\t') (hhash : c ≠ '#') (hbreak : isBreak c = false) :
    Scanner.skipGo false (fuel + 1) allowed ⟨List.replicate n ' ' ++ c::cs, m⟩ =
      (allowed, ⟨c::cs, m.plus n⟩) := by
  have hspaces : ∀ d ∈ List.replicate n ' ',
      (d == ' ' || ((false || !allowed) && d == '\t')) = true := by
    intro d hd
    rw [(List.mem_replicate.mp hd).2]
    rfl
  have hstop : ∀ d ∈ (c::cs).head?, (d == ' ' || ((false || !allowed) && d == '\t')) = false := by
    intro d hd
    obtain rfl : c = d := Option.some.inj hd
    simp [hspace, htab]
  rw [Scanner.skipGo, Cursor.skipWhile_append m hspaces hstop]
  simp [Cursor.skipComment, startsWith, hhash, hbreak]

theorem skipGo_word {fuel : Nat} {allowed : Bool} {c : Char} {cs : List Char} {m : Mark}
    (h : isWord c = true) :
    Scanner.skipGo false (fuel + 1) allowed ⟨c::cs, m⟩ = (allowed, ⟨c::cs, m⟩) :=
  skipGo_stop 0 (ne_of_eq h rfl) (ne_of_eq h rfl) (ne_of_eq h rfl)
    (isBreak_of_isGraphic (isGraphic_of_isWord h))

theorem noteChars_eq (note : Option Note) :
    ∃ n, ∀ cs, noteChars note ++ cs = List.replicate n ' ' ++ (hashChars note ++ cs) := by
  cases note with
  | none => exact ⟨0, fun _ => rfl⟩
  | some comment => exact ⟨1, fun _ => rfl⟩

end Page

end SlideDirectives.Yaml
