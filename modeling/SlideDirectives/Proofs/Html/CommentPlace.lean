import SlideDirectives.Proofs.Html.Locate

/-!
# The spans of comments fit the fragment

Whatever texts are looked for, the comments found lie in the fragment one
after the other, with their contents inside. The body of a comment is the part
of its content that padding leaves.
-/

set_option autoImplicit false

namespace SlideDirectives.Html

open Text

namespace Comment

/-- The comment lies in the fragment, and its content in the comment. -/
structure Fits (c : Comment) (fragment : List Char) : Prop where
  span : c.span.Fits fragment
  content : c.content.Fits fragment
  opens : c.span.start < c.content.start
  closes : c.content.stop ≤ c.span.stop

theorem parts_hold (before content closing rest : List Char) :
    let fragment := before ++ (commentOpening ++ (content ++ (closing ++ rest)))
    let start := byteSize before + 4
    let stop := start + byteSize content
    Holds fragment ⟨byteSize before, stop + byteSize closing⟩
        (commentOpening ++ (content ++ closing)) ∧
      Holds fragment ⟨start, stop⟩ content ∧
      Holds fragment ⟨stop, stop + byteSize closing⟩ closing := by
  refine ⟨⟨before, rest, by simp, ?_⟩, ⟨before ++ commentOpening, closing ++ rest, by simp, ?_⟩,
    ⟨before ++ (commentOpening ++ content), rest, by simp, ?_⟩⟩
  · simp only [byteSize_append, byteSize_commentOpening, Span.mk.injEq, true_and]
    omega
  · rw [byteSize_append, byteSize_commentOpening]
  · simp only [byteSize_append, byteSize_commentOpening, Nat.add_assoc]

theorem Opens.fits {fragment text : List Char} {p size : Nat} (h : Opens fragment p text size) :
    (placed fragment p text size).Fits fragment := by
  obtain ⟨before, after, rfl, rfl, hm⟩ := h
  obtain ⟨content, closing, rest, rfl, rfl, hclosing⟩ := matchSize?_parts hm
  obtain ⟨hspan, hcontent, -⟩ := parts_hold before content closing rest
  rw [placed_eq hclosing]
  exact ⟨hspan.fits, hcontent.fits, by simp, by simp⟩

theorem locateAll_fit (texts : List (List Char)) (done cs : List Char) :
    ∀ c ∈ locateAll (byteSize done) cs texts, c.Fits (done ++ cs) := by
  induction texts generalizing done cs with
  | nil => simp [locateAll]
  | cons text texts ih =>
    have hfound := locate?_found done cs text
    rw [locateAll]
    cases hl : locate? text (byteSize done) cs with
    | none => exact ih done cs
    | some found =>
      obtain ⟨comment, rest⟩ := found
      rw [hl] at hfound
      obtain ⟨p, size, -, ho, -, rfl, read, he, hread⟩ := hfound
      intro c hc
      rcases List.mem_cons.mp hc with rfl | hc
      · exact ho.fits
      · rw [← hread] at hc
        rw [he]
        exact ih read rest c hc

theorem locateAll_ordered (texts : List (List Char)) (done cs : List Char) :
    (locateAll (byteSize done) cs texts).Pairwise (fun a b => a.span.stop ≤ b.span.start) ∧
      ∀ c ∈ locateAll (byteSize done) cs texts, byteSize done ≤ c.span.start := by
  induction texts generalizing done cs with
  | nil => simp [locateAll]
  | cons text texts ih =>
    have hfound := locate?_found done cs text
    rw [locateAll]
    cases hl : locate? text (byteSize done) cs with
    | none => exact ih done cs
    | some found =>
      obtain ⟨comment, rest⟩ := found
      rw [hl] at hfound
      obtain ⟨p, size, hp, ho, -, rfl, read, -, hread⟩ := hfound
      obtain ⟨hordered, hbehind⟩ := ih read rest
      rw [hread] at hordered hbehind
      have hspan := ho.fits.span.ordered
      refine ⟨List.pairwise_cons.mpr ⟨hbehind, hordered⟩, ?_⟩
      intro c hc
      rcases List.mem_cons.mp hc with rfl | hc
      · exact hp
      · exact Nat.le_trans hp (Nat.le_trans hspan (hbehind c hc))

end Comment

theorem comments_ordered {fragment : List Char} {cs : List Comment}
    (h : comments fragment = .ok cs) : cs.Pairwise (fun a b => a.span.stop ≤ b.span.start) := by
  unfold comments at h
  split at h
  · cases ht : tokens fragment with
    | error tag =>
      rw [ht] at h
      cases h
    | ok ts =>
      rw [ht] at h
      cases h
      exact (Comment.locateAll_ordered _ [] fragment).1
  · cases h
    exact List.Pairwise.nil

theorem comments_fit {fragment : List Char} {cs : List Comment} (h : comments fragment = .ok cs) :
    ∀ c ∈ cs, c.Fits fragment := by
  unfold comments at h
  split at h
  · cases ht : tokens fragment with
    | error tag =>
      rw [ht] at h
      cases h
    | ok ts =>
      rw [ht] at h
      cases h
      exact Comment.locateAll_fit _ [] fragment
  · cases h
    simp

theorem stripPadding_holds (content : List Char) :
    Holds content ⟨(stripPadding content).1,
      (stripPadding content).1 + byteSize (stripPadding content).2⟩ (stripPadding content).2 := by
  have hpadding : ∃ padding, content = padding ++ trimStart (content.dropWhile (· == '-')) := by
    refine ⟨content.takeWhile (· == '-') ++ (content.dropWhile (· == '-')).takeWhile isBlank, ?_⟩
    rw [List.append_assoc, takeWhile_append_trimStart, List.takeWhile_append_dropWhile]
  obtain ⟨padding, hcontent⟩ := hpadding
  obtain ⟨tail, htail⟩ := (trimEnd_isPrefix _).trans
    (dropEndWhile_isPrefix (p := (· == '-')) (trimStart (content.dropWhile (· == '-'))))
  have hsize : (stripPadding content).1 = byteSize padding := by
    have h := congrArg byteSize hcontent
    rw [byteSize_append] at h
    simp only [stripPadding]
    omega
  refine ⟨padding, tail, ?_, by rw [hsize]⟩
  rw [List.append_assoc]
  exact hcontent.trans (congrArg (padding ++ ·) htail.symm)

end SlideDirectives.Html
