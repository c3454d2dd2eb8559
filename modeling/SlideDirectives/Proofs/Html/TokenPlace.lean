import SlideDirectives.Proofs.Html.Locate
import SlideDirectives.Proofs.Html.Rest

/-!
# Where the tokens of comments stand

The reading of a fragment gives each comment the bytes that it took from the
fragment, one comment behind the other. A comment is marked as opened if and
only if what was taken starts with the delimiter of comments.
-/

set_option autoImplicit false

namespace SlideDirectives.Html

open Text

/-- What a bracket starts takes a front part of what follows it. For a comment
that is a lead, the content and the delimiter that closes it. -/
def Opening.Takes (cs : List Char) : Opening → Prop
  | .comment before opened c => ∃ lead, cs = lead ++ (c.content ++ (c.closing ++ c.rest)) ∧
      before = 1 + byteSize lead ∧ opened = commentOpening.isPrefixOf ('<' :: cs) ∧
      (opened = true → '<' :: lead = commentOpening ∧
        Comment.closingSize c.content.isEmpty (c.closing ++ c.rest) = byteSize c.closing)
  | .skipped rest => rest <:+ cs
  | .startTag _ rest => rest <:+ cs
  | .endTag _ rest => rest <:+ cs

theorem bogus_takes (lead : List Char) {cs : List Char}
    (h : commentOpening.isPrefixOf ('<' :: (lead ++ cs)) = false) :
    (Opening.comment (1 + byteSize lead) false (Closed.bogus cs)).Takes (lead ++ cs) :=
  ⟨lead, by rw [Closed.bogus_parts], rfl, h.symm, fun hopened => by cases hopened⟩

theorem tagOr_takes {make : Tag → List Char → Opening} (lead : List Char) {cs : List Char}
    (hmake : ∀ t rest, (make t rest).Takes (lead ++ cs) ↔ rest <:+ lead ++ cs) :
    (tagOr make cs).Takes (lead ++ cs) := by
  unfold tagOr
  split
  · rename_i t rest ht
    exact (hmake t rest).mpr ((Tag.go_isSuffix ht).trans (List.suffix_append lead cs))
  · exact List.nil_suffix

theorem declaration_takes (foreign : Bool) (cs : List Char) :
    (declaration foreign cs).Takes ('!' :: cs) := by
  fun_cases declaration foreign cs with
  | case1 cs =>
    exact ⟨['!', '-', '-'], by rw [Closed.ofText_parts]; rfl, rfl, by simp [commentOpening],
      fun _ => ⟨rfl, Closed.ofText_closing cs⟩⟩
  | case2 => exact (Closed.bogus_rest_isSuffix cs).trans (List.suffix_cons '!' cs)
  | case3 =>
    exact ((afterCdata_isSuffix _).trans (List.drop_suffix _ cs)).trans (List.suffix_cons '!' cs)
  | case4 =>
    rename_i hdashes _ _
    have hnone : commentOpening.isPrefixOf ('<' :: '!' :: cs) = false := by
      rw [Bool.eq_false_iff]
      intro hopen
      obtain ⟨rest, hrest⟩ := List.isPrefixOf_iff_prefix.mp hopen
      obtain rfl : '-' :: '-' :: rest = cs := by simpa [commentOpening] using hrest
      exact hdashes rest rfl
    exact bogus_takes ['!'] hnone

theorem opening_takes (foreign : Bool) (cs : List Char) : (opening foreign cs).Takes cs := by
  fun_cases opening foreign cs with
  | case1 cs => exact declaration_takes foreign cs
  | case2 cs => exact bogus_takes [] rfl
  | case3 cs => exact ⟨['/', '>'], rfl⟩
  | case4 c cs => exact tagOr_takes ['/'] (fun _ _ => Iff.rfl)
  | case5 c cs => exact bogus_takes ['/'] rfl
  | case6 c cs => exact tagOr_takes [] (fun _ _ => Iff.rfl)
  | case7 c cs => exact List.suffix_refl _
  | case8 => exact List.nil_suffix

namespace CommentToken

/-- The token has the bytes of its lead, its text and its closing delimiter in
the fragment. The lead of an opened one is the delimiter of comments. -/
def StandsIn (fragment : List Char) (t : CommentToken) : Prop :=
  ∃ before lead closing rest, fragment = before ++ (lead ++ (t.text ++ (closing ++ rest))) ∧
    t.span = ⟨byteSize before,
      byteSize before + byteSize lead + byteSize t.text + byteSize closing⟩ ∧
    t.content = ⟨byteSize before + byteSize lead,
      byteSize before + byteSize lead + byteSize t.text⟩ ∧
    t.opened = commentOpening.isPrefixOf (lead ++ (t.text ++ (closing ++ rest))) ∧
    (t.opened = true → lead = commentOpening ∧
      Comment.closingSize t.text.isEmpty (closing ++ rest) = byteSize closing)

def Ordered (fragment : List Char) : Nat → List CommentToken → Prop
  | _, [] => True
  | p, t::ts => p ≤ t.span.start ∧ t.StandsIn fragment ∧ Ordered fragment t.span.stop ts

theorem Ordered.mono {fragment : List Char} {p q : Nat} {ts : List CommentToken}
    (h : Ordered fragment q ts) (hpq : p ≤ q) : Ordered fragment p ts := by
  cases ts with
  | nil => trivial
  | cons t ts => exact ⟨Nat.le_trans hpq h.1, h.2⟩

theorem ofClosed_standsIn (done : List Char) {cs : List Char} {before : Nat} {opened : Bool} {c : Closed}
    (h : (Opening.comment before opened c).Takes cs) :
    (ofClosed (byteSize done) before opened c).StandsIn (done ++ '<' :: cs) ∧
      ∃ read, cs = read ++ c.rest ∧
        (ofClosed (byteSize done) before opened c).span.stop = byteSize (done ++ '<' :: read) := by
  obtain ⟨lead, hcs, rfl, hopened, hlead⟩ := h
  have hsize : byteSize ('<' :: lead) = 1 + byteSize lead := rfl
  constructor
  · refine ⟨done, '<' :: lead, c.closing, c.rest, by rw [hcs]; rfl, ?_, ?_, ?_, hlead⟩
    · rw [hsize]
      rfl
    · rw [hsize]
      rfl
    · rw [hcs] at hopened
      exact hopened
  · refine ⟨lead ++ (c.content ++ c.closing), by simpa using hcs, ?_⟩
    simp only [ofClosed, byteSize_append, byteSize, show ('<' : Char).utf8Size = 1 from rfl]
    omega

end CommentToken

theorem byteSize_read {done read rest : List Char} :
    byteSize done + 1 + (byteSize (read ++ rest) - byteSize rest) =
      byteSize (done ++ '<' :: read) := by
  simp only [byteSize_append, byteSize, show ('<' : Char).utf8Size = 1 from rfl]
  omega

theorem tokensGo_ordered {fuel : Nat} {n : Nesting} {done cs : List Char}
    {ts : List CommentToken} (h : tokensGo fuel n (byteSize done) cs = .ok ts) :
    CommentToken.Ordered (done ++ cs) (byteSize done) ts := by
  induction fuel generalizing n done cs ts with
  | zero =>
    rw [tokensGo] at h
    cases h
    trivial
  | succ fuel ih =>
    cases cs with
    | nil =>
      rw [tokensGo] at h
      · cases h
        trivial
      · simp
    | cons c cs =>
      rw [tokensGo] at h
      by_cases hc : c = '<'
      · subst hc
        have hskip : ∀ {n rest ts}, rest <:+ cs →
            tokensGo fuel n (byteSize done + 1 + (byteSize cs - byteSize rest)) rest = .ok ts →
            CommentToken.Ordered (done ++ '<' :: cs) (byteSize done) ts := by
          rintro n rest ts ⟨read, rfl⟩ hts
          rw [byteSize_read] at hts
          have hrest := ih hts
          rw [List.append_assoc] at hrest
          apply hrest.mono
          simp [byteSize_append]
        have htakes := opening_takes (n.current != .html) cs
        simp only [ne_eq, not_true_eq_false, if_false] at h
        generalize opening (n.current != .html) cs = o at h htakes
        cases o with
        | comment before opened closed =>
          obtain ⟨hstands, read, hcs, hstop⟩ := CommentToken.ofClosed_standsIn done htakes
          simp only at h
          cases hts : tokensGo fuel n (byteSize done + 1 + (byteSize cs - byteSize closed.rest))
              closed.rest with
          | error tag =>
            rw [hts] at h
            cases h
          | ok behind =>
            rw [hts] at h
            cases h
            refine ⟨Nat.le_refl _, hstands, ?_⟩
            rw [hcs, byteSize_read] at hts
            have hrest := ih hts
            rw [List.append_assoc, List.cons_append, ← hcs, ← hstop] at hrest
            exact hrest
        | skipped rest => exact hskip htakes h
        | endTag t rest => exact hskip htakes h
        | startTag t rest =>
          simp only at h
          split at h
          · cases h
          · exact hskip htakes h
          · exact hskip ((RawText.rest_isSuffix _ _ _).trans htakes) h
      · rw [if_pos hc] at h
        have hnext : byteSize done + c.utf8Size = byteSize (done ++ [c]) := by
          simp [byteSize_append, byteSize]
        rw [hnext] at h
        have hrest := ih h
        rw [List.append_assoc] at hrest
        apply hrest.mono
        simp [byteSize_append]

end SlideDirectives.Html
