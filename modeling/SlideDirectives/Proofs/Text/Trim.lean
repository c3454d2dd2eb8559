import SlideDirectives.Proofs.Text.Boundary
import SlideDirectives.Text.Basic
import SlideDirectives.Text.Bytes

/-!
# What trimming, lower case and cutting into lines leave

Trimming at the end leaves a prefix and trimming at the start a suffix. Only
ASCII letters have a case, so a fact about all characters and their lower case is
one about the first 128 codes. The size of a line is that of its characters.
-/

set_option autoImplicit false

namespace SlideDirectives.Text

variable {p : Char → Bool}

theorem takeWhile_append_drop (cs : List Char) :
    cs.takeWhile p ++ cs.drop (cs.takeWhile p).length = cs :=
  (List.prefix_iff_eq_append.mp (List.takeWhile_prefix p))

theorem byteSize_le_of_isPrefix {xs ys : List Char} (h : xs <+: ys) : byteSize xs ≤ byteSize ys := by
  obtain ⟨rest, rfl⟩ := h
  rw [byteSize_append]
  exact Nat.le_add_right _ _

theorem dropEndWhile_isPrefix (cs : List Char) : dropEndWhile p cs <+: cs := by
  have h : (cs.reverse.dropWhile p).reverse <+: cs.reverse.reverse :=
    List.reverse_prefix.mpr (List.dropWhile_suffix p)
  rwa [List.reverse_reverse] at h

theorem dropEndWhile_append (xs : List Char) {ys : List Char} (h : dropEndWhile p ys ≠ []) :
    dropEndWhile p (xs ++ ys) = xs ++ dropEndWhile p ys := by
  have hy : (ys.reverse.dropWhile p).isEmpty = false := by
    cases hr : ys.reverse.dropWhile p with
    | nil => exact absurd (by rw [dropEndWhile, hr]; rfl) h
    | cons y ys => rfl
  rw [dropEndWhile, List.reverse_append, List.dropWhile_append, hy]
  simp [dropEndWhile]

theorem dropEndWhile_append_all {xs ys : List Char} (h : ∀ c ∈ ys, p c = true) :
    dropEndWhile p (xs ++ ys) = dropEndWhile p xs := by
  rw [dropEndWhile, List.reverse_append, List.dropWhile_append_of_pos (by simpa using h)]
  rfl

theorem dropEndWhile_concat {c : Char} (xs : List Char) (h : p c = false) :
    dropEndWhile p (xs ++ [c]) = xs ++ [c] := by
  simp [dropEndWhile, h]

theorem dropEndWhile_cons {c : Char} (h : p c = false) (cs : List Char) :
    dropEndWhile p (c::cs) = c :: dropEndWhile p cs := by
  rw [dropEndWhile, List.reverse_cons, List.dropWhile_append]
  split
  · rename_i hcs
    rw [dropEndWhile, List.isEmpty_iff.mp hcs]
    simp [h]
  · simp [dropEndWhile]

theorem dropEndWhile_eq_self {cs : List Char} (h : ∀ c ∈ cs, p c = false) :
    dropEndWhile p cs = cs := by
  rcases List.eq_nil_or_concat cs with rfl | ⟨before, c, rfl⟩
  · rfl
  · rw [List.concat_eq_append] at h ⊢
    exact dropEndWhile_concat before (h c (by simp))

theorem mem_dropWhile {cs : List Char} {c : Char} (hc : c ∈ cs) (h : p c = false) :
    c ∈ cs.dropWhile p := by
  induction cs with
  | nil => cases hc
  | cons d ds ih =>
    by_cases hd : p d = true
    · have hne : c ≠ d := by
        rintro rfl
        rw [h] at hd
        cases hd
      rw [List.dropWhile_cons_of_pos hd]
      exact ih ((List.mem_cons.mp hc).resolve_left hne)
    · rwa [List.dropWhile_cons_of_neg hd]

theorem trimEnd_isPrefix (cs : List Char) : trimEnd cs <+: cs :=
  dropEndWhile_isPrefix cs

theorem trimEnd_append_blanks (cs : List Char) :
    ∃ blanks, (∀ c ∈ blanks, isBlank c = true) ∧ trimEnd cs ++ blanks = cs := by
  refine ⟨(cs.reverse.takeWhile isBlank).reverse, ?_, ?_⟩
  · intro c hc
    exact List.all_eq_true.mp List.all_takeWhile c (List.mem_reverse.mp hc)
  · rw [trimEnd, dropEndWhile, ← List.reverse_append, List.takeWhile_append_dropWhile,
      List.reverse_reverse]

theorem takeWhile_append_trimStart (cs : List Char) :
    cs.takeWhile isBlank ++ trimStart cs = cs :=
  List.takeWhile_append_dropWhile

theorem byteSize_sub_trimStart (cs : List Char) :
    byteSize cs - byteSize (trimStart cs) = byteSize (cs.takeWhile isBlank) := by
  have h := congrArg byteSize (takeWhile_append_trimStart cs)
  rw [byteSize_append] at h
  omega

theorem trimEnd_eq {cs : List Char} (h : trim cs ≠ []) :
    trimEnd cs = cs.takeWhile isBlank ++ trim cs := by
  have ha : trimEnd (cs.takeWhile isBlank ++ trimStart cs) = cs.takeWhile isBlank ++ trim cs :=
    dropEndWhile_append _ h
  rwa [takeWhile_append_trimStart] at ha

theorem mem_trim {cs : List Char} {c : Char} (hc : c ∈ cs) (h : isBlank c = false) :
    c ∈ trim cs := by
  have hstart : c ∈ trimStart cs := mem_dropWhile hc h
  exact List.mem_reverse.mpr (mem_dropWhile (List.mem_reverse.mpr hstart) h)

theorem trimStart_append_blank {blanks : List Char} (h : ∀ c ∈ blanks, isBlank c = true)
    (cs : List Char) : trimStart (blanks ++ cs) = trimStart cs :=
  List.dropWhile_append_of_pos h

theorem trim_padded {before after : List Char} (hbefore : ∀ c ∈ before, isBlank c = true)
    (hafter : ∀ c ∈ after, isBlank c = true) (cs : List Char) :
    trim (before ++ cs ++ after) = trim cs := by
  rw [List.append_assoc, trim, trimStart_append_blank hbefore, trim, trimStart,
    List.dropWhile_append]
  split
  · next hblank =>
    have hcs : trimStart cs = [] := List.isEmpty_iff.mp hblank
    have hnone := trimStart_append_blank hafter []
    rw [List.append_nil] at hnone
    change trimEnd (trimStart after) = trimEnd (trimStart cs)
    rw [hnone, hcs]
    rfl
  · exact dropEndWhile_append_all hafter

theorem trim_trim (cs : List Char) : trim (trim cs) = trim cs := by
  obtain ⟨after, hafter, hend⟩ := trimEnd_append_blanks (trimStart cs)
  have hbefore : ∀ c ∈ cs.takeWhile isBlank, isBlank c = true :=
    fun c hc => List.all_eq_true.mp List.all_takeWhile c hc
  have hcs : cs.takeWhile isBlank ++ trim cs ++ after = cs := by
    rw [List.append_assoc, trim, hend, takeWhile_append_trimStart]
  rw [← trim_padded hbefore hafter (trim cs), hcs]

theorem isBoundary_of_isPrefix {xs ys : List Char} (h : xs <+: ys) :
    isBoundary ys (byteSize xs) = true := by
  obtain ⟨zs, rfl⟩ := h
  exact isBoundary_byteSize xs zs

namespace Line

theorem byteSize_chars (l : Line) : byteSize l.chars = l.size := by
  cases h : l.ended
  · simp [chars, size, h]
  · simp only [chars, size, h, if_true, byteSize_append, Bool.toNat_true]
    rfl

theorem content_isPrefix (l : Line) : l.content <+: l.chars := by
  cases h : l.ended <;> simp [chars, h]

end Line

theorem forall_ascii {c : Char} (p : Char → Prop) (h : ∀ n < 128, p (Char.ofNat n))
    (hc : c.toNat < 128) : p c := by
  have hcode := h c.toNat hc
  rwa [Char.ofNat_toNat] at hcode

theorem apply_toLower {α : Type} (f : Char → α)
    (h : ∀ n < 128, f (Char.ofNat n).toLower = f (Char.ofNat n)) (c : Char) :
    f c.toLower = f c := by
  by_cases hc : c.toNat < 128
  · exact forall_ascii (fun c => f c.toLower = f c) h hc
  · have hsame : c.toLower = c := by
      unfold Char.toLower
      rw [dif_neg]
      rintro ⟨-, hle⟩
      exact hc (Nat.lt_of_le_of_lt (UInt32.le_iff_toNat_le.mp hle) (by decide))
    rw [hsame]

theorem isBlank_toLower (c : Char) : isBlank c.toLower = isBlank c :=
  apply_toLower isBlank (by decide) c

theorem toLower_toLower (c : Char) : c.toLower.toLower = c.toLower :=
  apply_toLower Char.toLower (by decide) c

theorem lower_lower (cs : List Char) : lower (lower cs) = lower cs := by
  rw [lower, lower, List.map_map]
  exact List.map_congr_left fun c _ => toLower_toLower c

theorem lower_append (xs ys : List Char) : lower (xs ++ ys) = lower xs ++ lower ys :=
  List.map_append

theorem dropWhile_lower (cs : List Char) :
    (lower cs).dropWhile isBlank = lower (cs.dropWhile isBlank) := by
  have hblank : isBlank ∘ Char.toLower = isBlank := funext isBlank_toLower
  rw [lower, List.dropWhile_map, hblank]
  rfl

theorem trim_lower (cs : List Char) : trim (lower cs) = lower (trim cs) := by
  have hreverse (cs : List Char) : (lower cs).reverse = lower cs.reverse := List.map_reverse.symm
  rw [trim, trimStart, dropWhile_lower, trimEnd, dropEndWhile, hreverse, dropWhile_lower,
    hreverse]
  rfl

end SlideDirectives.Text
