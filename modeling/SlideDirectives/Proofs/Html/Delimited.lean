import Mathlib.Data.List.Forall2
import SlideDirectives.Proofs.Html.Bytewise
import SlideDirectives.Proofs.Html.CommentPlace

/-!
# Located comments are delimited

Whatever texts are looked for, each comment that is found opens as a comment
does, reads as its text but for carriage returns, and ends with a delimiter or
with the fragment. The texts that are found are those of the comments, in order.
-/

set_option autoImplicit false

namespace SlideDirectives.Html.Comment

open Text

/-- The content is the text once some of its carriage returns are deleted. -/
inductive Reads : (content text : List Char) → Prop where
  | nil : Reads [] []
  | kept {content text : List Char} (c : Char) (h : Reads content text) :
      Reads (c::content) (c::text)
  | deleted {content text : List Char} (h : Reads content text) : Reads ('\r'::content) text

theorem matchSize?_reads {text cs : List Char} {n : Nat} (h : matchSize? text cs = some n) :
    ∃ content behind, cs = content ++ behind ∧ n = byteSize content ∧ Reads content text := by
  fun_induction matchSize? text cs generalizing n with
  | case1 cs =>
    obtain rfl := Option.some.inj h
    exact ⟨[], cs, rfl, rfl, Reads.nil⟩
  | case2 => cases h
  | case3 ts c cs ih =>
    obtain ⟨m, hm, rfl⟩ := Option.map_eq_some_iff.mp h
    obtain ⟨content, behind, rfl, rfl, hreads⟩ := ih hm
    exact ⟨c::content, behind, rfl, Nat.add_comm _ _, hreads.kept c⟩
  | case4 t ts cs hne ih =>
    obtain ⟨m, hm, rfl⟩ := Option.map_eq_some_iff.mp h
    obtain ⟨content, behind, rfl, rfl, hreads⟩ := ih hm
    exact ⟨'\r'::content, behind, rfl, Nat.add_comm _ _, hreads.deleted⟩
  | case5 => cases h

/-- What closes a comment; one without text is closed by less. -/
def closings (text : List Char) : List (List Char) :=
  if text.isEmpty then ["-->".toList, "--!>".toList, "->".toList, ">".toList]
  else ["-->".toList, "--!>".toList]

theorem closingSize_eq (text cs : List Char) :
    closingSize text.isEmpty cs =
      byteSize (((closings text).find? (·.isPrefixOf cs)).getD cs) := by
  unfold closingSize closings
  cases text.isEmpty with
  | false =>
    rw [if_neg Bool.false_ne_true, List.find?_cons, List.find?_cons, List.find?_nil]
    cases "-->".toList.isPrefixOf cs with
    | true => rfl
    | false => cases "--!>".toList.isPrefixOf cs <;> rfl
  | true =>
    rw [if_pos rfl, List.find?_cons, List.find?_cons, List.find?_cons, List.find?_cons,
      List.find?_nil, Bool.true_and, Bool.true_and]
    cases "-->".toList.isPrefixOf cs with
    | true => rfl
    | false =>
      cases "--!>".toList.isPrefixOf cs with
      | true => rfl
      | false =>
        cases "->".toList.isPrefixOf cs with
        | true => rfl
        | false => cases ">".toList.isPrefixOf cs <;> rfl

theorem closingSize_cases (text cs : List Char) :
    ∃ closing behind, cs = closing ++ behind ∧ closingSize text.isEmpty cs = byteSize closing ∧
      (closing ∈ closings text ∨ (behind = [] ∧ ∀ d ∈ closings text, ¬ d <+: closing)) := by
  rw [closingSize_eq]
  cases hfind : (closings text).find? (·.isPrefixOf cs) with
  | some d =>
    have hprefix := List.find?_some hfind
    obtain ⟨behind, hbehind⟩ := List.isPrefixOf_iff_prefix.mp hprefix
    exact ⟨d, behind, hbehind.symm, rfl, Or.inl (List.mem_of_find?_eq_some hfind)⟩
  | none =>
    refine ⟨cs, [], (List.append_nil cs).symm, rfl, Or.inr ⟨rfl, ?_⟩⟩
    intro d hd hprefix
    exact List.find?_eq_none.mp hfind d hd (List.isPrefixOf_iff_prefix.mpr hprefix)

/-- The comment is written in the fragment, with that text. -/
structure Delimits (fragment : List Char) (c : Comment) (text : List Char) : Prop where
  fits : c.Fits fragment
  opening : commentOpening <+: slice fragment c.span
  start : c.content.start = c.span.start + 4
  reads : Reads (slice fragment c.content) text
  closing : slice fragment ⟨c.content.stop, c.span.stop⟩ ∈ closings text ∨
    (c.span.stop = byteSize fragment ∧
      ∀ d ∈ closings text, ¬ d <+: slice fragment ⟨c.content.stop, c.span.stop⟩)

theorem Opens.delimits {fragment text : List Char} {p size : Nat}
    (h : Opens fragment p text size) :
    Delimits fragment (placed fragment p text size) text := by
  obtain ⟨before, after, rfl, rfl, hmatch⟩ := h
  obtain ⟨content, behind, rfl, rfl, hreads⟩ := matchSize?_reads hmatch
  obtain ⟨closing, rest, rfl, hsize, hclosing⟩ := closingSize_cases text behind
  obtain ⟨hspan, hcontent, hdelimiter⟩ := parts_hold before content closing rest
  rw [placed_eq hsize]
  refine ⟨⟨hspan.fits, hcontent.fits, by simp, by simp⟩, ?_, rfl, ?_, ?_⟩
  · rw [hspan.slice_eq]
    exact List.prefix_append _ _
  · rw [hcontent.slice_eq]
    exact hreads
  · rw [hdelimiter.slice_eq]
    rcases hclosing with hmem | ⟨rfl, hnone⟩
    · exact Or.inl hmem
    · refine Or.inr ⟨?_, hnone⟩
      simp only [byteSize_append, byteSize_commentOpening, List.append_nil]
      omega

theorem Traces.delimits {fragment : List Char} {p : Nat} {texts : List (List Char)}
    {cs : List Comment} (h : Traces fragment p texts cs) :
    ∃ found, found.Sublist texts ∧ List.Forall₂ (Delimits fragment) cs found := by
  induction h with
  | done p => exact ⟨[], List.Sublist.refl _, List.Forall₂.nil⟩
  | lost _ _ ih =>
    obtain ⟨found, hsublist, hfound⟩ := ih
    exact ⟨found, hsublist.cons _, hfound⟩
  | @found p q size text texts cs _ opens _ _ ih =>
    obtain ⟨found, hsublist, hfound⟩ := ih
    exact ⟨text::found, hsublist.cons_cons text, List.Forall₂.cons opens.delimits hfound⟩

/-- Whatever texts are looked for, no cut of the fragment fails. Each text is
found at the first opening behind the comment before that reads as it, or occurs
nowhere there, and the comments are delimited and stand one behind the other. -/
theorem located_delimited (fragment : List Char) (texts : List (List Char)) :
    ∃ cs found, locateAllFrom fragment 0 texts = .ok cs ∧ cs = locateAll 0 fragment texts ∧
      Traces fragment 0 texts cs ∧
      found.Sublist texts ∧ List.Forall₂ (Delimits fragment) cs found ∧
      cs.Pairwise (fun a b => a.span.start < b.span.start ∧ a.span.stop ≤ b.span.start) := by
  have htraces := locateAll_traces texts [] fragment
  obtain ⟨found, hsublist, hfound⟩ := htraces.delimits
  refine ⟨_, found, locateAllFrom_eq texts [] fragment, rfl, htraces, hsublist, hfound, ?_⟩
  have hfits := locateAll_fit texts [] fragment
  refine (locateAll_ordered texts [] fragment).1.imp_of_mem ?_
  intro a b ha _ hab
  have hopens := (hfits a ha).opens
  have hcontent := (hfits a ha).content.ordered
  have hcloses := (hfits a ha).closes
  exact ⟨by omega, hab⟩

end SlideDirectives.Html.Comment
