import Mathlib.Data.List.Basic
import Mathlib.Data.List.Induction
import SlideDirectives.Proofs.Text.Overwrite

/-!
# Carriage returns before newlines

With a carriage return before each newline a text has the same lines, each with
one more character, and every offset moves by the newlines before it. What is
cut out or trimmed is the same part, with carriage returns of its own.
-/

set_option autoImplicit false

namespace SlideDirectives.Text

def withReturn (c : Char) : List Char :=
  if c = '\n' then ['\r', '\n'] else [c]

def addReturns (cs : List Char) : List Char :=
  cs.flatMap withReturn

/-- Where the byte `n` of the text is with carriage returns. -/
def returned (cs : List Char) (n : Nat) : Nat :=
  n + (takeBytes n cs).count '\n'

def Span.map (f : Nat → Nat) (s : Span) : Span :=
  ⟨f s.start, f s.stop⟩

section Characters

theorem addReturns_append (xs ys : List Char) :
    addReturns (xs ++ ys) = addReturns xs ++ addReturns ys :=
  List.flatMap_append

theorem addReturns_newline (cs : List Char) :
    addReturns ('\n' :: cs) = '\r' :: '\n' :: addReturns cs := rfl

theorem addReturns_cons {c : Char} (h : c ≠ '\n') (cs : List Char) :
    addReturns (c::cs) = c :: addReturns cs := by
  rw [addReturns, List.flatMap_cons, withReturn, if_neg h]
  rfl

theorem addReturns_eq_self {cs : List Char} (h : '\n' ∉ cs) : addReturns cs = cs := by
  induction cs with
  | nil => rfl
  | cons c cs ih =>
    have hc : c ≠ '\n' := fun hc => h (hc ▸ List.mem_cons_self)
    rw [addReturns_cons hc, ih fun hcs => h (List.mem_cons_of_mem c hcs)]

theorem isBlank_of_mem_withReturn {c d : Char} (h : isBlank c = true) (hd : d ∈ withReturn c) :
    isBlank d = true := by
  rw [withReturn] at hd
  split at hd
  · simp only [List.mem_cons, List.not_mem_nil, or_false] at hd
    rcases hd with rfl | rfl
    · decide
    · decide
  · rwa [List.mem_singleton.mp hd]

theorem withReturn_of_not_isBlank {c : Char} (h : isBlank c = false) : withReturn c = [c] := by
  have hc : c ≠ '\n' := by
    rintro rfl
    exact absurd h (by decide)
  rw [withReturn, if_neg hc]

theorem trimStart_addReturns (cs : List Char) :
    trimStart (addReturns cs) = addReturns (trimStart cs) := by
  induction cs with
  | nil => rfl
  | cons c cs ih =>
    cases hc : isBlank c with
    | true =>
      have hwith : ∀ d ∈ withReturn c, isBlank d = true :=
        fun d hd => isBlank_of_mem_withReturn hc hd
      rw [trimStart, trimStart, List.dropWhile_cons_of_pos hc, addReturns, List.flatMap_cons,
        List.dropWhile_append_of_pos hwith]
      exact ih
    | false =>
      have hnot : ¬isBlank c = true := by simp [hc]
      rw [trimStart, trimStart, List.dropWhile_cons_of_neg hnot, addReturns, List.flatMap_cons,
        withReturn_of_not_isBlank hc]
      exact List.dropWhile_cons_of_neg hnot

theorem trimEnd_addReturns (cs : List Char) :
    trimEnd (addReturns cs) = addReturns (trimEnd cs) := by
  induction cs using List.reverseRecOn with
  | nil => rfl
  | append_singleton cs c ih =>
    have hlast : addReturns [c] = withReturn c := List.flatMap_singleton withReturn c
    rw [addReturns_append, hlast]
    cases hc : isBlank c with
    | true =>
      have hwith : ∀ d ∈ withReturn c, isBlank d = true :=
        fun d hd => isBlank_of_mem_withReturn hc hd
      have hsingle : ∀ d ∈ [c], isBlank d = true := by simpa using hc
      rw [trimEnd, trimEnd, dropEndWhile_append_all hwith, dropEndWhile_append_all hsingle]
      exact ih
    | false =>
      rw [withReturn_of_not_isBlank hc, trimEnd, trimEnd, dropEndWhile_concat _ hc,
        dropEndWhile_concat _ hc, addReturns_append, hlast, withReturn_of_not_isBlank hc]

theorem trim_addReturns (cs : List Char) : trim (addReturns cs) = addReturns (trim cs) := by
  rw [trim, trim, trimStart_addReturns, trimEnd_addReturns]

end Characters

section Bytes

theorem returned_newline (n : Nat) (cs : List Char) :
    returned ('\n' :: cs) (n + 1) = returned cs n + 2 := by
  have hsize : ('\n' : Char).utf8Size = 1 := rfl
  rw [returned, returned, takeBytes, hsize, if_pos (Nat.le_add_left 1 n), Nat.add_sub_cancel,
    List.count_cons_self]
  omega

theorem returned_cons {c : Char} (h : c ≠ '\n') (n : Nat) (cs : List Char) :
    returned (c::cs) (n + c.utf8Size) = returned cs n + c.utf8Size := by
  rw [returned, returned, takeBytes, if_pos (Nat.le_add_left _ n), Nat.add_sub_cancel,
    List.count_cons_of_ne h]
  omega

theorem returned_lt {c : Char} {n : Nat} (h : n < c.utf8Size) (cs : List Char) :
    returned (c::cs) n = n := by
  rw [returned, takeBytes, if_neg (Nat.not_le_of_lt h)]
  rfl

theorem takeBytes_addReturns (n : Nat) (cs : List Char) :
    takeBytes (returned cs n) (addReturns cs) = addReturns (takeBytes n cs) := by
  induction cs generalizing n with
  | nil => rfl
  | cons c cs ih =>
    by_cases hn : c.utf8Size ≤ n
    · obtain ⟨k, rfl⟩ := Nat.exists_eq_add_of_le' hn
      rw [takeBytes, if_pos hn, Nat.add_sub_cancel]
      by_cases hc : c = '\n'
      · subst hc
        have hsize : ('\n' : Char).utf8Size = 1 := rfl
        have hreturn : ('\r' : Char).utf8Size = 1 := rfl
        rw [hsize, returned_newline, addReturns_newline, addReturns_newline, takeBytes, hreturn,
          if_pos (by omega), takeBytes, hsize, if_pos (by omega)]
        exact congrArg ('\r' :: '\n' :: ·) (ih k)
      · rw [returned_cons hc, addReturns_cons hc, addReturns_cons hc, takeBytes,
          if_pos (Nat.le_add_left _ _), Nat.add_sub_cancel, ih]
    · have hlt := Nat.lt_of_not_le hn
      rw [returned_lt hlt, takeBytes, if_neg hn]
      by_cases hc : c = '\n'
      · subst hc
        have hzero : n = 0 := Nat.lt_one_iff.mp hlt
        rw [hzero]
        exact takeBytes_zero _
      · rw [addReturns_cons hc, takeBytes, if_neg hn]
        rfl

theorem dropBytes_addReturns (n : Nat) (cs : List Char) :
    dropBytes (returned cs n) (addReturns cs) = addReturns (dropBytes n cs) := by
  have hall := takeBytes_append_dropBytes (returned cs n) (addReturns cs)
  conv at hall => rhs; rw [← takeBytes_append_dropBytes n cs, addReturns_append]
  rw [takeBytes_addReturns] at hall
  exact List.append_cancel_left hall

theorem returned_add {cs : List Char} {m : Nat} (h : isBoundary cs m = true) (n : Nat) :
    returned cs (m + n) = returned cs m + returned (dropBytes m cs) n := by
  obtain ⟨before, after, rfl, rfl⟩ := isBoundary_iff.mp h
  rw [returned, returned, returned, takeBytes_append, takeBytes_byteSize_append,
    dropBytes_byteSize_append, List.count_append]
  omega

theorem slice_addReturns {cs : List Char} {s : Span} (h : isBoundary cs s.start = true)
    (hle : s.start ≤ s.stop) :
    slice (addReturns cs) (s.map (returned cs)) = addReturns (slice cs s) := by
  have hsize : (s.map (returned cs)).size = returned (dropBytes s.start cs) s.size := by
    have hstop : s.stop = s.start + s.size := by
      rw [Span.size]
      omega
    rw [Span.size, Span.map, hstop, returned_add h, Nat.add_sub_cancel_left]
  rw [slice, hsize]
  change takeBytes _ (dropBytes (returned cs s.start) _) = _
  rw [dropBytes_addReturns, takeBytes_addReturns]
  rfl

theorem mem_slice {cs : List Char} {s : Span} {c : Char} (h : c ∈ slice cs s) : c ∈ cs := by
  have htake : c ∈ dropBytes s.start cs := by
    rw [← takeBytes_append_dropBytes s.size (dropBytes s.start cs)]
    exact List.mem_append_left _ h
  rw [← takeBytes_append_dropBytes s.start cs]
  exact List.mem_append_right _ htake

end Bytes

section Lines

/-- The line with a carriage return before its newline. -/
def Line.withReturn (l : Line) : Line :=
  if l.ended then ⟨l.content ++ ['\r'], true⟩ else l

theorem Line.chars_withReturn {l : Line} (h : '\n' ∉ l.content) :
    l.withReturn.chars = addReturns l.chars := by
  obtain ⟨content, ended⟩ := l
  have hcontent : addReturns content = content := addReturns_eq_self h
  cases ended with
  | true =>
    change content ++ ['\r'] ++ ['\n'] = addReturns (content ++ ['\n'])
    rw [addReturns_append, hcontent, List.append_assoc]
    rfl
  | false => exact hcontent.symm

theorem Line.size_withReturn (l : Line) :
    l.withReturn.size = l.size + l.ended.toNat := by
  obtain ⟨content, ended⟩ := l
  cases ended with
  | true =>
    have hreturn : ('\r' : Char).utf8Size = 1 := rfl
    simp [Line.withReturn, Line.size, byteSize_append, byteSize, hreturn]
  | false => rfl

theorem isCut_withReturn {ls : List Line} (h : IsCut ls) : IsCut (ls.map Line.withReturn) := by
  induction ls with
  | nil => trivial
  | cons l ls ih =>
    obtain ⟨⟨hnewline, hended⟩, hls⟩ := h
    refine ⟨?_, ih hls⟩
    obtain ⟨content, ended⟩ := l
    cases ended with
    | true =>
      refine ⟨?_, Or.inl rfl⟩
      change '\n' ∉ content ++ ['\r']
      simpa using hnewline
    | false =>
      rcases hended with hended | ⟨rfl, hne⟩
      · cases hended
      · exact ⟨hnewline, Or.inr ⟨rfl, hne⟩⟩

theorem lines_addReturns (cs : List Char) :
    lines (addReturns cs) = (lines cs).map Line.withReturn := by
  have hcut := isCut_lines cs
  have hchars : ((lines cs).map Line.withReturn).flatMap Line.chars = addReturns cs := by
    conv => rhs; rw [← flatMap_chars_lines cs, addReturns, List.flatMap_assoc]
    rw [List.flatMap_map]
    exact List.flatMap_congr fun l hl => Line.chars_withReturn (hcut.newline_not_mem hl)
  rw [← hchars]
  exact lines_flatMap (isCut_withReturn hcut)

theorem returned_content {before after : List Char} {l : Line} (h : '\n' ∉ l.content) {k : Nat}
    (hk : k ≤ byteSize l.content) :
    returned (before ++ (l.chars ++ after)) (byteSize before + k) =
      returned (before ++ (l.chars ++ after)) (byteSize before) + k := by
  obtain ⟨ending, hl⟩ := l.content_isPrefix
  have hcount : (takeBytes k (l.chars ++ after)).count '\n' = 0 := by
    rw [← hl, List.append_assoc, takeBytes_append_left hk]
    apply List.count_eq_zero.mpr
    intro hmem
    rw [← takeBytes_append_dropBytes k l.content] at h
    exact h (List.mem_append_left _ hmem)
  have hline : returned (l.chars ++ after) k = k := by rw [returned, hcount, Nat.add_zero]
  rw [returned_add (isBoundary_byteSize _ _), dropBytes_byteSize_append, hline]

theorem returned_size {before after : List Char} {l : Line} (h : '\n' ∉ l.content) :
    returned (before ++ (l.chars ++ after)) (byteSize before + l.size) =
      returned (before ++ (l.chars ++ after)) (byteSize before) + l.withReturn.size := by
  have hcount : l.chars.count '\n' = l.ended.toNat := by
    have hcontent := List.count_eq_zero.mpr h
    rw [Line.chars]
    cases l.ended with
    | true => simp [hcontent]
    | false => simpa using hcontent
  have hline : returned (l.chars ++ after) l.size = l.withReturn.size := by
    rw [returned, ← l.byteSize_chars, takeBytes_byteSize_append, hcount, l.byteSize_chars,
      Line.size_withReturn]
  rw [returned_add (isBoundary_byteSize _ _), dropBytes_byteSize_append, hline]

end Lines

end SlideDirectives.Text
