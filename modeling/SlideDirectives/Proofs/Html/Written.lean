import Mathlib.Data.List.Infix
import SlideDirectives.Proofs.Html.Decoy

/-!
# Written comments are found

A fragment that is written from plain texts and comments between them is read
back: every comment is found where it was written, however its body is spelled
as long as it cannot be taken for the end of the comment.
-/

set_option autoImplicit false

namespace SlideDirectives.Html

open Text

def commentClosing : List Char := ['-', '-', '>']

/-- A body that does not end its comment before it ends itself. -/
structure IsBody (b : List Char) : Prop where
  dashes : ¬ ['-', '-'] <:+: b
  bracket : ¬ ['>'] <+: b
  dashBracket : ¬ ['-', '>'] <+: b
  last : ¬ ['-'] <:+ b

instance (b : List Char) : Decidable (IsBody b) :=
  decidable_of_iff (¬ ['-', '-'] <:+: b ∧ ¬ ['>'] <+: b ∧ ¬ ['-', '>'] <+: b ∧ ¬ ['-'] <:+ b)
    ⟨fun h => ⟨h.1, h.2.1, h.2.2.1, h.2.2.2⟩, fun h => ⟨h.1, h.2, h.3, h.4⟩⟩

structure Piece where
  body : List Char
  behind : List Char
  deriving DecidableEq, Repr

namespace Piece

def comment (p : Piece) : List Char :=
  commentOpening ++ (p.body ++ commentClosing)

def chars (p : Piece) : List Char :=
  p.comment ++ p.behind

def place (start : Nat) (p : Piece) : Comment :=
  ⟨⟨start, start + byteSize p.comment⟩, ⟨start + 4, start + 4 + byteSize p.body⟩⟩

/-- Only the comment opens anything. -/
structure Plain (p : Piece) : Prop where
  body : IsBody p.body
  behind : '<' ∉ p.behind

end Piece

def written (lead : List Char) (ps : List Piece) : List Char :=
  lead ++ ps.flatMap Piece.chars

namespace Closed

/-- The modes within the content of a comment. -/
def Mode.Within (m : Mode) : Prop :=
  m = .content ∨ m = .dash

theorem Mode.next_other {m : Mode} {c : Char} (hc : c ≠ '-') (hm : m ≠ .dashes) :
    m.next c = (.content, m.held ++ [c]) := by
  unfold Mode.next
  split <;> simp_all

theorem Mode.Within.next {m : Mode} {c : Char} (h : m.Within) (hc : m = .dash → c ≠ '-') :
    (m.next c).1.Within ∧ m.closes = false := by
  rcases h with rfl | rfl
  · refine ⟨?_, rfl⟩
    by_cases hdash : c = '-'
    · exact Or.inr (by rw [hdash]; rfl)
    · exact Or.inl (by rw [Mode.next_other hdash (by decide)])
  · exact ⟨Or.inl (by rw [Mode.next_other (hc rfl) (by decide)]), rfl⟩

theorem go_cons {m : Mode} {c : Char} (h : c = '>' → m.closes = false) (acc cs : List Char) :
    go m acc (c::cs) = go (m.next c).1 ((m.next c).2.reverse ++ acc) cs := by
  have hopen : ¬ (c = '>' ∧ m.closes = true) := by
    rintro ⟨hc, hcloses⟩
    rw [h hc] at hcloses
    cases hcloses
  rw [go, if_neg hopen]

/-- Within a comment the first delimiter that is complete ends it. -/
theorem go_body {m : Mode} (hm : m.Within) (acc : List Char) {b : List Char}
    (hdashes : ¬ ['-', '-'] <:+: m.held ++ b) (hlast : ¬ ['-'] <:+ m.held ++ b) (cs : List Char) :
    go m acc (b ++ (commentClosing ++ cs)) = ⟨acc.reverse ++ (m.held ++ b), commentClosing, cs⟩ := by
  induction b generalizing m acc with
  | nil =>
    rcases hm with rfl | rfl
    · simp [go, Mode.next, Mode.held, Mode.closes, commentClosing]
    · exact absurd (List.suffix_refl _) hlast
  | cons c b ih =>
    have hdash : m = .dash → c ≠ '-' := by
      rintro rfl rfl
      exact hdashes ⟨[], b, rfl⟩
    obtain ⟨hnext, hopen⟩ := hm.next hdash
    -- What the step lets go of and what it holds back are what was held and read.
    have hheld : m.held ++ c::b = (m.next c).2 ++ ((m.next c).1.held ++ b) := by
      rw [← List.append_assoc, m.held_next, List.append_assoc]
      rfl
    rw [hheld] at hdashes hlast
    rw [List.cons_append, go_cons (fun _ => hopen), ih hnext]
    · rw [hheld]
      simp
    · exact fun h => hdashes (h.trans (List.suffix_append _ _).isInfix)
    · exact fun h => hlast (h.trans (List.suffix_append _ _))

theorem go_content (before : List Char) {b : List Char} (h : IsBody (before ++ b))
    (acc cs : List Char) :
    go .content acc (b ++ (commentClosing ++ cs)) = ⟨acc.reverse ++ b, commentClosing, cs⟩ :=
  go_body (Or.inl rfl) acc (fun hi => h.dashes (hi.trans (List.suffix_append before b).isInfix))
    (fun hs => h.last (hs.trans (List.suffix_append before b))) cs

theorem ofText_body {b : List Char} (h : IsBody b) (cs : List Char) :
    ofText (b ++ (commentClosing ++ cs)) = ⟨b, commentClosing, cs⟩ := by
  cases b with
  | nil => simp [ofText, go, Mode.next, Mode.held, Mode.closes, commentClosing]
  | cons c b =>
    have hbracket : c ≠ '>' := by
      rintro rfl
      exact h.bracket ⟨b, rfl⟩
    rw [ofText, List.cons_append, go_cons (fun hc => absurd hc hbracket)]
    by_cases hc : c = '-'
    · subst hc
      cases b with
      | nil => exact absurd (List.suffix_refl _) h.last
      | cons d b =>
        have hdash : d ≠ '-' := by
          rintro rfl
          exact h.dashes ⟨[], b, rfl⟩
        have hend : d ≠ '>' := by
          rintro rfl
          exact h.dashBracket ⟨b, rfl⟩
        have hnext := Mode.next_other (m := .openingDash) hdash (by decide)
        change go .openingDash [] _ = _
        rw [List.cons_append, go_cons (fun hd => absurd hd hend), hnext]
        exact go_content ['-', d] h _ cs
    · have hnext := Mode.next_other (m := .opening) hc (by decide)
      rw [hnext]
      exact go_content [c] h _ cs

end Closed

section Reading

variable {fuel start : Nat} {n : Nesting} {t cs : List Char}

theorem tokensGo_text (h : '<' ∉ t) :
    tokensGo (t.length + fuel) n start (t ++ cs) = tokensGo fuel n (start + byteSize t) cs := by
  induction t generalizing start with
  | nil => rw [List.length_nil, Nat.zero_add]; rfl
  | cons c t ih =>
    rw [List.mem_cons, not_or] at h
    rw [List.length_cons, Nat.add_right_comm, List.cons_append, tokensGo, if_pos (Ne.symm h.1),
      ih h.2, byteSize, Nat.add_assoc]

theorem tokensGo_comment {b : List Char} (h : IsBody b) :
    ∃ token stop, token.text = b ∧
      tokensGo (fuel + 1) n start (commentOpening ++ (b ++ (commentClosing ++ cs))) =
        (tokensGo fuel n stop cs).map (token :: ·) := by
  let read := '!' :: '-' :: '-' :: (b ++ (commentClosing ++ cs))
  refine ⟨CommentToken.ofClosed start 4 true ⟨b, commentClosing, cs⟩,
    start + 1 + (byteSize read - byteSize cs), rfl, ?_⟩
  have hopening : opening (n.current != .html) read =
      .comment 4 true ⟨b, commentClosing, cs⟩ := by
    rw [opening, declaration, Closed.ofText_body h]
  change tokensGo (fuel + 1) n start ('<' :: read) = _
  rw [tokensGo]
  simp only [ne_eq, not_true_eq_false, if_false, hopening]

theorem tokensGo_pieces {ps : List Piece} (h : ∀ p ∈ ps, p.Plain)
    (hfuel : (ps.flatMap Piece.chars).length < fuel) :
    ∃ ts, tokensGo fuel n start (ps.flatMap Piece.chars) = .ok ts ∧
      ts.map (·.text) = ps.map (·.body) := by
  induction ps generalizing fuel start with
  | nil =>
    obtain ⟨fuel, rfl⟩ := Nat.exists_eq_succ_of_ne_zero (Nat.ne_zero_of_lt hfuel)
    exact ⟨[], rfl, rfl⟩
  | cons p ps ih =>
    rw [List.forall_mem_cons] at h
    have hchars : (p :: ps).flatMap Piece.chars = commentOpening ++
        (p.body ++ (commentClosing ++ (p.behind ++ ps.flatMap Piece.chars))) := by
      simp [Piece.chars, Piece.comment]
    rw [hchars] at hfuel ⊢
    -- The comment takes one step, and the text behind it one for each character.
    obtain ⟨more, hmore, hfuel⟩ : ∃ more, fuel = p.behind.length + more + 1 ∧
        (ps.flatMap Piece.chars).length < more := by
      simp only [List.length_append, commentOpening, commentClosing, List.length_cons] at hfuel
      exact ⟨fuel - 1 - p.behind.length, by omega, by omega⟩
    obtain ⟨token, stop, htext, htoken⟩ := tokensGo_comment h.1.body
    obtain ⟨ts, hts, htexts⟩ := ih h.2 hfuel
    refine ⟨token :: ts, ?_, by rw [List.map_cons, List.map_cons, htext, htexts]⟩
    rw [hmore, htoken, tokensGo_text h.1.behind, hts]
    rfl

theorem tokens_written {lead : List Char} {ps : List Piece} (hlead : '<' ∉ lead)
    (h : ∀ p ∈ ps, p.Plain) :
    ∃ ts, tokens (written lead ps) = .ok ts ∧ ts.map (·.text) = ps.map (·.body) := by
  rw [tokens, written, List.length_append, Nat.add_assoc, tokensGo_text hlead]
  exact tokensGo_pieces h (Nat.lt_succ_self _)

end Reading

section Locating

variable {start : Nat} {cs : List Char} {ps : List Piece}

theorem locate?_text {t : List Char} (h : '<' ∉ t) (text : List Char) :
    Comment.locate? text start (t ++ cs) = Comment.locate? text (start + byteSize t) cs := by
  induction t generalizing start with
  | nil => rfl
  | cons c t ih =>
    rw [List.mem_cons, not_or] at h
    have hnone : commentOpening.isPrefixOf (c :: (t ++ cs)) = false := by
      simp [commentOpening, List.isPrefixOf, h.1]
    rw [List.cons_append, Comment.locate?, hnone, if_neg Bool.false_ne_true, ih h.2, byteSize,
      Nat.add_assoc]

theorem locate?_comment (p : Piece) :
    Comment.locate? p.body start (p.comment ++ cs) = some (p.place start, cs) := by
  have hopen : commentOpening.isPrefixOf ('<' :: '!' :: '-' :: '-' ::
      (p.body ++ (commentClosing ++ cs))) = true :=
    List.isPrefixOf_iff_prefix.mpr (List.prefix_append _ _)
  have hclosing : Comment.closingSize p.body.isEmpty (commentClosing ++ cs) = 3 :=
    if_pos (List.isPrefixOf_iff_prefix.mpr (List.prefix_append _ _))
  have hrest : dropBytes 3 (commentClosing ++ cs) = cs := dropBytes_byteSize_append commentClosing cs
  have hsize : byteSize p.comment = 4 + byteSize p.body + 3 := by
    rw [Piece.comment, byteSize_append, byteSize_append, Nat.add_assoc]
    rfl
  have hchars : p.comment ++ cs = '<' :: '!' :: '-' :: '-' :: (p.body ++ (commentClosing ++ cs)) := by
    simp [Piece.comment, commentOpening]
  rw [hchars, Comment.locate?, if_pos hopen]
  simp only [List.drop_succ_cons, List.drop_zero, Comment.matchSize?_append,
    dropBytes_byteSize_append, hclosing, hrest, Piece.place, hsize, ← Nat.add_assoc]

/-- The places of the comments, the first of which starts at byte `start`. -/
def placesFrom : Nat → List Piece → List Comment
  | _, [] => []
  | start, p::ps => p.place start :: placesFrom (start + byteSize p.chars) ps

theorem locateAll_text {t : List Char} (h : '<' ∉ t) (texts : List (List Char)) :
    Comment.locateAll start (t ++ cs) texts = Comment.locateAll (start + byteSize t) cs texts := by
  induction texts with
  | nil => rfl
  | cons text texts ih => rw [Comment.locateAll, Comment.locateAll, locate?_text h, ih]

theorem locateAll_pieces (h : ∀ p ∈ ps, p.Plain) :
    Comment.locateAll start (ps.flatMap Piece.chars) (ps.map (·.body)) = placesFrom start ps := by
  induction ps generalizing start with
  | nil => rfl
  | cons p ps ih =>
    rw [List.forall_mem_cons] at h
    have hsize : byteSize p.chars = byteSize p.comment + byteSize p.behind := byteSize_append _ _
    rw [List.flatMap_cons, Piece.chars, List.append_assoc, List.map_cons, Comment.locateAll,
      locate?_comment]
    simp only
    rw [locateAll_text h.1.behind, ih h.2, placesFrom, hsize, ← Nat.add_assoc]
    rfl

theorem length_placesFrom : (placesFrom start ps).length = ps.length := by
  induction ps generalizing start with
  | nil => rfl
  | cons p ps ih => rw [placesFrom, List.length_cons, ih, List.length_cons]

theorem getElem?_placesFrom (before behind : List Piece) (p : Piece) :
    (placesFrom start (before ++ p::behind))[before.length]? =
      some (p.place (start + byteSize (before.flatMap Piece.chars))) := by
  induction before generalizing start with
  | nil => rfl
  | cons q before ih =>
    rw [List.cons_append, placesFrom, List.length_cons, List.getElem?_cons_succ, ih,
      List.flatMap_cons, byteSize_append, Nat.add_assoc]

end Locating

theorem Piece.holds_place (lead : List Char) (before behind : List Piece) (p : Piece) :
    let place := p.place (byteSize (written lead before))
    Holds (written lead (before ++ p::behind)) place.span p.comment ∧
      Holds (written lead (before ++ p::behind)) place.content p.body := by
  constructor
  · exact ⟨written lead before, p.behind ++ behind.flatMap Piece.chars,
      by simp [written, Piece.chars], rfl⟩
  · refine ⟨written lead before ++ commentOpening,
      commentClosing ++ (p.behind ++ behind.flatMap Piece.chars), ?_, ?_⟩
    · simp [written, Piece.chars, Piece.comment]
    · rw [byteSize_append]
      rfl

/-- Comments written between plain texts are read back, each once and in order,
with the bytes of the comment and of its body. -/
theorem comments_written (lead : List Char) (ps : List Piece) (hlead : '<' ∉ lead)
    (h : ∀ p ∈ ps, p.Plain) :
    ∃ cs, comments (written lead ps) = .ok cs ∧ cs.length = ps.length ∧
      ∀ before p behind, ps = before ++ p::behind →
        let place := p.place (byteSize (written lead before))
        cs[before.length]? = some place ∧
          slice (written lead ps) place.span = p.comment ∧
          slice (written lead ps) place.content = p.body := by
  refine ⟨placesFrom (byteSize lead) ps, ?_, length_placesFrom, ?_⟩
  · rw [comments]
    split
    · obtain ⟨ts, hts, htexts⟩ := tokens_written hlead h
      have hlocated : Comment.locateAll 0 (written lead ps) (ps.map (·.body)) =
          placesFrom (byteSize lead) ps := by
        rw [written, locateAll_text hlead, Nat.zero_add, locateAll_pieces h]
      rw [hts, ← hlocated, ← htexts]
      rfl
    · rename_i hnone
      cases ps with
      | nil => rfl
      | cons p ps =>
        refine absurd (Comment.contains_of_part lead commentOpening
          (p.body ++ (commentClosing ++ (p.behind ++ ps.flatMap Piece.chars)))) ?_
        simpa [written, Piece.chars, Piece.comment] using hnone
  · rintro before p behind rfl
    obtain ⟨hspan, hcontent⟩ := Piece.holds_place lead before behind p
    refine ⟨?_, hspan.slice_eq, hcontent.slice_eq⟩
    rw [getElem?_placesFrom, ← byteSize_append]
    rfl

def repeatedPieces : List Piece :=
  [⟨" é\r<b>".toList, "t\r\n".toList⟩, ⟨" é\r<b>".toList, []⟩, ⟨" é".toList, "->".toList⟩,
    ⟨[], "end".toList⟩]

theorem comments_written_repeated :
    '<' ∉ "-->".toList ∧ (∀ p ∈ repeatedPieces, p.Plain) ∧
      ∃ cs, comments (written "-->".toList repeatedPieces) = .ok cs ∧ cs.length = 4 ∧
        cs[1]? = some ⟨⟨20, 34⟩, ⟨24, 31⟩⟩ ∧ cs[3]? = some ⟨⟨46, 53⟩, ⟨50, 50⟩⟩ := by
  have hlead : '<' ∉ "-->".toList := by decide
  have hplain : ∀ p ∈ repeatedPieces, p.Plain := by
    intro p hp
    simp only [repeatedPieces, List.mem_cons, List.not_mem_nil, or_false] at hp
    rcases hp with rfl | rfl | rfl | rfl <;> exact ⟨by decide, by decide⟩
  obtain ⟨cs, hcs, hlength, hplaces⟩ := comments_written "-->".toList repeatedPieces hlead hplain
  refine ⟨hlead, hplain, cs, hcs, hlength, ?_, ?_⟩
  · exact (hplaces (repeatedPieces.take 1) ⟨" é\r<b>".toList, []⟩ (repeatedPieces.drop 2) rfl).1
  · exact (hplaces (repeatedPieces.take 3) ⟨[], "end".toList⟩ [] rfl).1

end SlideDirectives.Html
