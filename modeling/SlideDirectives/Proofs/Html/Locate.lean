import SlideDirectives.Html.Comment
import SlideDirectives.Proofs.Text.Trim

/-!
# Where the text of a comment is found

Looking for a text finds the first comment opening from the given byte on
whose content starts with it. What is found has the place that the opening,
the text and the delimiter after it determine.
-/

set_option autoImplicit false

namespace SlideDirectives.Html.Comment

open Text

/-- At byte `p` of the fragment a comment opens, and the first `size` bytes of
what follows read as `text`. -/
def Opens (fragment : List Char) (p : Nat) (text : List Char) (size : Nat) : Prop :=
  ∃ before after, fragment = before ++ (commentOpening ++ after) ∧ p = byteSize before ∧
    matchSize? text after = some size

/-- No comment from byte `start` to byte `stop` opens with the text. -/
def NoneIn (fragment : List Char) (start stop : Nat) (text : List Char) : Prop :=
  ∀ p size, start ≤ p → p < stop → ¬ Opens fragment p text size

def placed (fragment : List Char) (p : Nat) (text : List Char) (size : Nat) : Comment :=
  let contentStart := p + 4
  let contentStop := contentStart + size
  let closing := closingSize text.isEmpty (dropBytes contentStop fragment)
  ⟨⟨p, contentStop + closing⟩, ⟨contentStart, contentStop⟩⟩

theorem matchSize?_isPrefix {text cs : List Char} {n : Nat} (h : matchSize? text cs = some n) :
    ∃ part, part <+: cs ∧ byteSize part = n := by
  fun_induction matchSize? text cs generalizing n with
  | case1 cs => exact ⟨[], List.nil_prefix, by simpa [byteSize] using h⟩
  | case2 => cases h
  | case3 ts c cs ih =>
    obtain ⟨m, hm, rfl⟩ := Option.map_eq_some_iff.mp h
    obtain ⟨part, hp, rfl⟩ := ih hm
    exact ⟨c::part, by simpa using hp, by simp only [byteSize]; omega⟩
  | case4 t ts cs hne ih =>
    obtain ⟨m, hm, rfl⟩ := Option.map_eq_some_iff.mp h
    obtain ⟨part, hp, rfl⟩ := ih hm
    have hsize : ('\r' : Char).utf8Size = 1 := rfl
    exact ⟨'\r'::part, by simpa using hp, by simp only [byteSize, hsize]; omega⟩
  | case5 => cases h

theorem closingSize_isPrefix (isEmpty : Bool) (cs : List Char) :
    ∃ closing, closing <+: cs ∧ byteSize closing = closingSize isEmpty cs := by
  unfold closingSize
  split
  · exact ⟨_, List.isPrefixOf_iff_prefix.mp ‹_›, rfl⟩
  · split
    · exact ⟨_, List.isPrefixOf_iff_prefix.mp ‹_›, rfl⟩
    · split
      · rename_i h
        exact ⟨_, List.isPrefixOf_iff_prefix.mp (Bool.and_eq_true_iff.mp h).2, rfl⟩
      · split
        · rename_i h
          exact ⟨_, List.isPrefixOf_iff_prefix.mp (Bool.and_eq_true_iff.mp h).2, rfl⟩
        · exact ⟨cs, List.prefix_refl cs, rfl⟩

theorem Opens.boundary {fragment text : List Char} {p size : Nat}
    (h : Opens fragment p text size) : isBoundary fragment p = true := by
  obtain ⟨before, after, rfl, rfl, -⟩ := h
  exact isBoundary_byteSize _ _

theorem opens_iff {done cs text : List Char} {size : Nat} :
    Opens (done ++ cs) (byteSize done) text size ↔
      ∃ after, cs = commentOpening ++ after ∧ matchSize? text after = some size := by
  constructor
  · rintro ⟨before, after, he, hp, hm⟩
    obtain ⟨rfl, rfl⟩ := eq_of_byteSize_eq he hp
    exact ⟨after, rfl, hm⟩
  · rintro ⟨after, rfl, hm⟩
    exact ⟨done, after, rfl, rfl, hm⟩

theorem noneIn_step {done cs text : List Char} {c : Char} {stop : Nat}
    (h : ∀ size, ¬ Opens (done ++ c::cs) (byteSize done) text size)
    (k : NoneIn (done ++ c::cs) (byteSize (done ++ [c])) stop text) :
    NoneIn (done ++ c::cs) (byteSize done) stop text := by
  intro p size hp hs ho
  rcases Nat.eq_or_lt_of_le hp with rfl | hlt
  · exact h size ho
  · exact k p size (isBoundary_next ho.boundary hlt) hs ho

/-- What is found of a text from byte `start` on: nothing opens with it, or the
first comment that does, with what follows it. -/
def Found (fragment : List Char) (start : Nat) (text : List Char) :
    Option (Comment × List Char) → Prop
  | none => ∀ stop, NoneIn fragment start stop text
  | some (comment, rest) => ∃ p size, start ≤ p ∧ Opens fragment p text size ∧
      NoneIn fragment start p text ∧ comment = placed fragment p text size ∧
      ∃ read, fragment = read ++ rest ∧ byteSize read = comment.span.stop

theorem Found.step {done cs text : List Char} {c : Char} {r : Option (Comment × List Char)}
    (h : ∀ size, ¬ Opens (done ++ c::cs) (byteSize done) text size)
    (k : Found (done ++ c::cs) (byteSize (done ++ [c])) text r) :
    Found (done ++ c::cs) (byteSize done) text r := by
  cases r with
  | none =>
    intro stop
    exact noneIn_step h (k stop)
  | some found =>
    obtain ⟨p, size, hp, ho, hnone, hc, hrest⟩ := k
    refine ⟨p, size, ?_, ho, noneIn_step h hnone, hc, hrest⟩
    rw [byteSize_append] at hp
    omega

theorem byteSize_commentOpening : byteSize commentOpening = 4 := rfl

theorem placed_eq {before content closing rest text : List Char}
    (hc : closingSize text.isEmpty (closing ++ rest) = byteSize closing) :
    placed (before ++ (commentOpening ++ (content ++ (closing ++ rest)))) (byteSize before) text
        (byteSize content) =
      ⟨⟨byteSize before, byteSize before + 4 + byteSize content + byteSize closing⟩,
        ⟨byteSize before + 4, byteSize before + 4 + byteSize content⟩⟩ := by
  have hsize : byteSize (before ++ (commentOpening ++ content)) =
      byteSize before + 4 + byteSize content := by
    simp only [byteSize_append, byteSize_commentOpening]
    omega
  have hbehind := dropBytes_byteSize_append (before ++ (commentOpening ++ content)) (closing ++ rest)
  rw [hsize, List.append_assoc, List.append_assoc] at hbehind
  simp only [placed, hbehind, hc]

theorem matchSize?_parts {text after : List Char} {size : Nat}
    (h : matchSize? text after = some size) :
    ∃ content closing rest, after = content ++ (closing ++ rest) ∧ size = byteSize content ∧
      closingSize text.isEmpty (closing ++ rest) = byteSize closing := by
  obtain ⟨content, ⟨behind, rfl⟩, rfl⟩ := matchSize?_isPrefix h
  obtain ⟨closing, ⟨rest, rfl⟩, hclosing⟩ := closingSize_isPrefix text.isEmpty behind
  exact ⟨content, closing, rest, rfl, rfl, hclosing.symm⟩

theorem found_here {done after text : List Char} {size : Nat}
    (hm : matchSize? text after = some size) :
    let rest := dropBytes size after
    let closing := closingSize text.isEmpty rest
    Found (done ++ (commentOpening ++ after)) (byteSize done) text
      (some (⟨⟨byteSize done, byteSize done + 4 + size + closing⟩,
        ⟨byteSize done + 4, byteSize done + 4 + size⟩⟩, dropBytes closing rest)) := by
  obtain ⟨content, closing, rest, rfl, rfl, hclosing⟩ := matchSize?_parts hm
  simp only [dropBytes_byteSize_append, hclosing]
  refine ⟨byteSize done, byteSize content, Nat.le_refl _, opens_iff.mpr ⟨_, rfl, hm⟩, ?_,
    (placed_eq hclosing).symm, done ++ (commentOpening ++ (content ++ closing)), by simp, ?_⟩
  · intro p size hp hs
    omega
  · simp only [byteSize_append, byteSize_commentOpening]
    omega

theorem locate?_found (done cs text : List Char) :
    Found (done ++ cs) (byteSize done) text (locate? text (byteSize done) cs) := by
  induction cs generalizing done with
  | nil =>
    intro stop p size hp hs ho
    obtain ⟨before, after, he, rfl, -⟩ := ho
    have hsize := congrArg byteSize he
    simp only [byteSize_append, byteSize, byteSize_commentOpening] at hsize
    omega
  | cons c cs ih =>
    have hnext : byteSize done + c.utf8Size = byteSize (done ++ [c]) := by
      simp [byteSize_append, byteSize]
    have ih := ih (done ++ [c])
    rw [List.append_assoc, List.singleton_append, ← hnext] at ih
    by_cases hopen : commentOpening.isPrefixOf (c::cs) = true
    · obtain ⟨after, hafter⟩ := List.isPrefixOf_iff_prefix.mp hopen
      have hdrop : cs.drop 3 = after := by
        obtain ⟨rfl, rfl⟩ := List.cons_eq_cons.mp hafter
        rfl
      rw [locate?, if_pos hopen]
      simp only [hdrop]
      cases hm : matchSize? text after with
      | none =>
        rw [hnext] at ih ⊢
        apply ih.step
        intro size ho
        obtain ⟨after', he, hm'⟩ := opens_iff.mp ho
        rw [← hafter] at he
        rw [← List.append_cancel_left he, hm] at hm'
        cases hm'
      | some size =>
        rw [← hafter]
        exact found_here hm
    · rw [locate?, if_neg hopen]
      rw [hnext] at ih ⊢
      apply ih.step
      intro size ho
      obtain ⟨after, he, -⟩ := opens_iff.mp ho
      exact hopen (List.isPrefixOf_iff_prefix.mpr ⟨after, he.symm⟩)

end SlideDirectives.Html.Comment
