import SlideDirectives.FrontMatter
import SlideDirectives.Proofs.Text.Overwrite

/-!
# The grammar of front matter

A text has front matter exactly if it is an opening fence, lines of which none
closes it, a closing fence, and a rest that is empty or starts with a newline.
There is only one way to cut a text into these parts, and what is found are
their places. What follows front matter has none itself.
-/

set_option autoImplicit false

namespace SlideDirectives

open Text

namespace Text

section Lines

theorem lines_flatMap_newline {ls : List (List Char)} (h : ∀ l ∈ ls, '\n' ∉ l) (rest : List Char) :
    lines (ls.flatMap (· ++ ['\n']) ++ rest) = ls.map (⟨·, true⟩) ++ lines rest := by
  induction ls with
  | nil => rfl
  | cons l ls ih =>
    rw [List.forall_mem_cons] at h
    rw [List.flatMap_cons, List.append_assoc, List.append_assoc, List.singleton_append,
      lines_newline h.1, ih h.2]
    rfl

theorem IsCut.ended {before after : List Line} (h : IsCut (before ++ after)) (hafter : after ≠ []) :
    ∀ l ∈ before, l.ended = true := by
  induction before with
  | nil => exact fun l hl => absurd hl List.not_mem_nil
  | cons l before ih =>
    rw [List.forall_mem_cons]
    refine ⟨h.1.ended.resolve_right fun hlast => ?_, ih h.2⟩
    exact hafter (List.append_eq_nil_iff.mp hlast.1).2

theorem IsCut.right {before after : List Line} (h : IsCut (before ++ after)) : IsCut after := by
  induction before with
  | nil => exact h
  | cons l before ih => exact ih h.2

theorem flatMap_chars_ended {ls : List Line} (h : ∀ l ∈ ls, l.ended = true) :
    ls.flatMap Line.chars = (ls.map Line.content).flatMap (· ++ ['\n']) := by
  have hchars : ls.map Line.chars = ls.map (fun l => l.content ++ ['\n']) :=
    List.map_congr_left fun l hl => if_pos (h l hl)
  rw [List.flatMap_map, List.flatMap_def, List.flatMap_def, hchars]

theorem IsCut.flatMap_chars {l : Line} {after : List Line} (h : IsCut (l::after)) :
    ∃ rest, (l::after).flatMap Line.chars = l.content ++ rest ∧
      (rest = [] ∨ ∃ cs, rest = '\n' :: cs) := by
  rw [List.flatMap_cons, Line.chars]
  rcases h.1.ended with hl | ⟨rfl, -⟩
  · rw [if_pos hl, List.append_assoc]
    exact ⟨_, rfl, Or.inr ⟨_, rfl⟩⟩
  · rw [List.flatMap_nil, List.append_nil]
    split
    · exact ⟨_, rfl, Or.inr ⟨_, rfl⟩⟩
    · exact ⟨[], (List.append_nil _).symm, Or.inl rfl⟩

theorem lines_content {cs rest : List Char} (h : '\n' ∉ cs) (hne : cs ≠ [])
    (hrest : rest = [] ∨ ∃ after, rest = '\n' :: after) :
    ∃ ended ls, lines (cs ++ rest) = ⟨cs, ended⟩ :: ls := by
  rcases hrest with rfl | ⟨after, rfl⟩
  · rw [List.append_nil]
    exact ⟨false, [], lines_unended h hne⟩
  · exact ⟨true, lines after, lines_newline h after⟩

end Lines

end Text

namespace FrontMatter

/-- What a text with front matter consists of, without the newline behind the
opening fence. -/
structure Parts where
  opening : List Char
  body : List Char
  closing : List Char
  rest : List Char
  deriving DecidableEq, Repr

namespace Parts

def text (p : Parts) : List Char :=
  p.opening ++ '\n' :: (p.body ++ (p.closing ++ p.rest))

def frontMatter (p : Parts) : FrontMatter :=
  ⟨⟨0, byteSize p.opening + 1 + byteSize p.body + byteSize p.closing⟩,
    ⟨byteSize p.opening + 1, byteSize p.opening + 1 + byteSize p.body⟩⟩

/-- The fences and the lines between them are as they have to be. -/
structure Valid (p : Parts) : Prop where
  opening : ∃ n blanks, 3 ≤ n ∧ p.opening = List.replicate n '-' ++ blanks ∧
    ∀ c ∈ blanks, isBlank c = true ∧ c ≠ '\n'
  body : ∃ ls : List (List Char), p.body = ls.flatMap (· ++ ['\n']) ∧
    ∀ l ∈ ls, '\n' ∉ l ∧ trim l ≠ ['-', '-', '-']
  closing : '\n' ∉ p.closing ∧ trim p.closing = ['-', '-', '-']
  rest : p.rest = [] ∨ ∃ after, p.rest = '\n' :: after

variable (p : Parts)

theorem holds_span : Holds p.text p.frontMatter.span (p.opening ++ '\n' :: (p.body ++ p.closing)) := by
  refine ⟨[], p.rest, by simp [text], ?_⟩
  simp only [frontMatter, byteSize_append, byteSize, Span.mk.injEq, true_and]
  have hnewline : '\n'.utf8Size = 1 := rfl
  omega

theorem holds_body : Holds p.text p.frontMatter.body p.body := by
  refine ⟨p.opening ++ ['\n'], p.closing ++ p.rest, by simp [text], ?_⟩
  rw [byteSize_append]
  rfl

theorem openingSize_frontMatter : p.frontMatter.openingSize = byteSize p.opening + 1 :=
  Nat.sub_zero _

theorem eq_of_frontMatter {p q : Parts} (htext : p.text = q.text)
    (h : p.frontMatter = q.frontMatter) : p = q := by
  obtain ⟨opening, body, closing, rest⟩ := p
  obtain ⟨opening', body', closing', rest'⟩ := q
  simp only [frontMatter, FrontMatter.mk.injEq, Span.mk.injEq, true_and] at h
  obtain ⟨hspan, hstart, hbody⟩ := h
  have ho : byteSize opening = byteSize opening' := by omega
  have hb : byteSize body = byteSize body' := by omega
  have hc : byteSize closing = byteSize closing' := by omega
  obtain ⟨rfl, htail⟩ := eq_of_byteSize_eq htext ho
  obtain ⟨rfl, hend⟩ := eq_of_byteSize_eq (List.cons_eq_cons.mp htail).2 hb
  obtain ⟨rfl, rfl⟩ := eq_of_byteSize_eq hend hc
  rfl

end Parts

section Fences

variable {line : List Char}

theorem isOpening_iff : isOpening line = true ↔
    ∃ n blanks, 3 ≤ n ∧ line = List.replicate n '-' ++ blanks ∧ ∀ c ∈ blanks, isBlank c = true := by
  rw [isOpening, Bool.and_eq_true, decide_eq_true_eq, List.all_eq_true]
  constructor
  · rintro ⟨hlength, hdash⟩
    obtain ⟨blanks, hblanks, hline⟩ := trimEnd_append_blanks line
    have hfence : trimEnd line = List.replicate (trimEnd line).length '-' :=
      List.eq_replicate_iff.mpr ⟨rfl, fun c hc => beq_iff_eq.mp (hdash c hc)⟩
    exact ⟨_, blanks, hlength, hfence ▸ hline.symm, hblanks⟩
  · rintro ⟨n, blanks, hn, rfl, hblanks⟩
    have hfence : trimEnd (List.replicate n '-' ++ blanks) = List.replicate n '-' := by
      rw [trimEnd, dropEndWhile_append_all hblanks]
      apply dropEndWhile_eq_self
      intro c hc
      rw [List.eq_of_mem_replicate hc]
      decide
    rw [hfence, List.length_replicate]
    exact ⟨hn, fun c hc => beq_iff_eq.mpr (List.eq_of_mem_replicate hc)⟩

theorem isClosing_iff : isClosing line = true ↔ trim line = ['-', '-', '-'] := by
  rw [isClosing, beq_iff_eq]

theorem isClosing_eq_false_iff : isClosing line = false ↔ trim line ≠ ['-', '-', '-'] := by
  rw [← Bool.not_eq_true, isClosing_iff]

end Fences

section Closing

variable {start offset : Nat}

def closedBy (start offset : Nat) (body : List Line) (l : Line) : FrontMatter :=
  ⟨⟨0, offset + byteSize (body.flatMap Line.chars) + byteSize l.content⟩,
    ⟨start, offset + byteSize (body.flatMap Line.chars)⟩⟩

theorem closedBy_cons (b : Line) (body : List Line) (l : Line) :
    closedBy start (offset + b.size) body l = closedBy start offset (b::body) l := by
  simp only [closedBy, List.flatMap_cons, byteSize_append, b.byteSize_chars, Nat.add_assoc]

theorem close?_complete {body rest : List Line} {l : Line}
    (hbody : ∀ b ∈ body, isClosing b.content = false) (hl : isClosing l.content = true) :
    close? start offset (body ++ l::rest) = some (closedBy start offset body l) := by
  induction body generalizing offset with
  | nil => rw [List.nil_append, close?, if_pos hl]; rfl
  | cons b body ih =>
    rw [List.forall_mem_cons] at hbody
    rw [List.cons_append, close?, if_neg (Bool.eq_false_iff.mp hbody.1), ih hbody.2, closedBy_cons]

/-- The closing fence is the first line that reads as one. -/
theorem close?_sound {ls : List Line} {f : FrontMatter} (h : close? start offset ls = some f) :
    ∃ body l rest, ls = body ++ l::rest ∧ (∀ b ∈ body, isClosing b.content = false) ∧
      isClosing l.content = true ∧ f = closedBy start offset body l := by
  induction ls generalizing offset with
  | nil => cases h
  | cons l ls ih =>
    rw [close?] at h
    split at h
    · rename_i hl
      obtain rfl := Option.some.inj h
      exact ⟨[], l, ls, rfl, fun b hb => absurd hb List.not_mem_nil, hl, rfl⟩
    · rename_i hl
      obtain ⟨body, l', rest, rfl, hbody, hl', rfl⟩ := ih h
      refine ⟨l::body, l', rest, rfl, ?_, hl', closedBy_cons l body l'⟩
      exact List.forall_mem_cons.mpr ⟨Bool.eq_false_iff.mpr hl, hbody⟩

end Closing

/-- A text of this form has front matter, and where its parts are. -/
theorem find?_complete {p : Parts} (h : p.Valid) : find? p.text = some p.frontMatter := by
  obtain ⟨n, blanks, hn, hopening, hblanks⟩ := h.opening
  obtain ⟨ls, hbody, hls⟩ := h.body
  have hnewline : '\n' ∉ p.opening := by
    rw [hopening, List.mem_append, List.mem_replicate]
    rintro (⟨-, hdash⟩ | hblank)
    · exact absurd hdash (by decide)
    · exact (hblanks _ hblank).2 rfl
  have hfence : isOpening p.opening = true :=
    isOpening_iff.mpr ⟨n, blanks, hn, hopening, fun c hc => (hblanks c hc).1⟩
  have hne : p.closing ≠ [] := by
    intro hnil
    have htrim := h.closing.2
    rw [hnil] at htrim
    cases htrim
  obtain ⟨ended, rest, hrest⟩ := lines_content h.closing.1 hne h.rest
  have hlines : lines p.text =
      ⟨p.opening, true⟩ :: (ls.map (⟨·, true⟩) ++ ⟨p.closing, ended⟩ :: rest) := by
    rw [Parts.text, lines_newline hnewline, hbody, lines_flatMap_newline fun l hl => (hls l hl).1,
      hrest]
  have hnone : ∀ b ∈ ls.map (fun l => (⟨l, true⟩ : Line)), isClosing b.content = false := by
    intro b hb
    obtain ⟨l, hl, rfl⟩ := List.mem_map.mp hb
    exact isClosing_eq_false_iff.mpr (hls l hl).2
  have hchars : (ls.map (fun l => (⟨l, true⟩ : Line))).flatMap Line.chars = p.body := by
    rw [hbody, List.flatMap_map]
    rfl
  rw [find?, hlines]
  simp only [hfence, if_true]
  rw [close?_complete hnone (isClosing_iff.mpr h.closing.2), closedBy, hchars]
  rfl

/-- Front matter that is found has the parts it should have. -/
theorem find?_sound {text : List Char} {f : FrontMatter} (h : find? text = some f) :
    ∃ p : Parts, p.Valid ∧ p.text = text ∧ p.frontMatter = f := by
  unfold find? at h
  cases hlines : lines text with
  | nil => simp [hlines] at h
  | cons o ls =>
    rw [hlines] at h
    simp only at h
    split at h
    · rename_i hopening
      obtain ⟨body, l, after, rfl, hbody, hl, rfl⟩ := close?_sound h
      have hcut : IsCut ((o::body) ++ l::after) := by
        rw [List.cons_append, ← hlines]
        exact isCut_lines text
      have hended := hcut.ended (List.cons_ne_nil l after)
      rw [List.forall_mem_cons] at hended
      have hafter : IsCut (l::after) := hcut.right
      obtain ⟨rest, hchars, hrest⟩ := hafter.flatMap_chars
      obtain ⟨n, blanks, hn, hfence, hblanks⟩ := isOpening_iff.mp hopening
      refine ⟨⟨o.content, body.flatMap Line.chars, l.content, rest⟩, ⟨?_, ?_, ?_, hrest⟩, ?_, ?_⟩
      · refine ⟨n, blanks, hn, hfence, fun c hc => ⟨hblanks c hc, ?_⟩⟩
        rintro rfl
        apply hcut.1.newline
        rw [hfence]
        exact List.mem_append_right _ hc
      · refine ⟨body.map Line.content, flatMap_chars_ended hended.2, ?_⟩
        rw [List.forall_mem_map]
        intro b hb
        have hmem : b ∈ (o::body) ++ l::after := List.mem_append_left _ (List.mem_cons_of_mem o hb)
        exact ⟨hcut.newline_not_mem hmem, isClosing_eq_false_iff.mp (hbody b hb)⟩
      · exact ⟨hafter.1.newline, isClosing_iff.mp hl⟩
      · have htext := flatMap_chars_lines text
        rw [hlines, List.flatMap_cons, List.flatMap_append, hchars, Line.chars, if_pos hended.1,
          List.append_assoc] at htext
        exact htext
      · have hsize : o.size = byteSize o.content + 1 := by rw [Line.size, hended.1]; rfl
        rw [Parts.frontMatter, closedBy, hsize]
    · cases h

/-- Front matter is found exactly in the texts that have its grammar, and its
places are those of the only parts that make up the text. -/
theorem found_iff_parts (text : List Char) :
    ((find? text).isSome = true ↔ ∃ p : Parts, p.Valid ∧ p.text = text) ∧
      ∀ f, find? text = some f → ∃ p : Parts, p.Valid ∧ p.text = text ∧
        (∀ q : Parts, q.Valid → q.text = text → q = p) ∧ f = p.frontMatter ∧
        slice text f.span = p.opening ++ '\n' :: (p.body ++ p.closing) ∧
        slice text f.body = p.body ∧ f.openingSize = byteSize p.opening + 1 ∧
        f.span.Fits text ∧ f.body.Fits text := by
  refine ⟨⟨fun h => ?_, ?_⟩, fun f h => ?_⟩
  · obtain ⟨f, hf⟩ := Option.isSome_iff_exists.mp h
    obtain ⟨p, hp, htext, -⟩ := find?_sound hf
    exact ⟨p, hp, htext⟩
  · rintro ⟨p, hp, rfl⟩
    rw [find?_complete hp]
    rfl
  · obtain ⟨p, hp, rfl, rfl⟩ := find?_sound h
    refine ⟨p, hp, rfl, fun q hq htext => ?_, rfl, p.holds_span.slice_eq, p.holds_body.slice_eq,
      p.openingSize_frontMatter, p.holds_span.fits, p.holds_body.fits⟩
    have hplaces := find?_complete hq
    rw [htext, h] at hplaces
    exact Parts.eq_of_frontMatter htext (Option.some.inj hplaces).symm

example : find? "----\r\n-----\n ---\r".toList = some ⟨⟨0, 17⟩, ⟨6, 12⟩⟩ := by decide

section Found

variable {text : List Char} {f : FrontMatter}

theorem find?_parts (h : find? text = some f) :
    ∃ opening body closing rest, text = opening ++ (body ++ (closing ++ rest)) ∧
      f = ⟨⟨0, byteSize opening + byteSize body + byteSize closing⟩,
        ⟨byteSize opening, byteSize opening + byteSize body⟩⟩ ∧
      (rest = [] ∨ ∃ after, rest = '\n' :: after) := by
  obtain ⟨p, hp, rfl, rfl⟩ := find?_sound h
  refine ⟨p.opening ++ ['\n'], p.body, p.closing, p.rest, ?_, ?_, hp.rest⟩
  · rw [List.append_assoc]
    rfl
  · rw [byteSize_append]
    rfl

theorem find?_holds (h : find? text = some f) :
    f.span.Fits text ∧ f.body.Fits text ∧ f.body.stop ≤ f.span.stop := by
  obtain ⟨p, -, rfl, rfl⟩ := find?_sound h
  exact ⟨p.holds_span.fits, p.holds_body.fits, Nat.le_add_right _ _⟩

theorem find?_pos (h : find? text = some f) : 0 < f.span.stop := by
  obtain ⟨p, -, -, rfl⟩ := find?_sound h
  simp only [Parts.frontMatter]
  omega

theorem find?_opens (h : find? text = some f) : f.span.start < f.body.start := by
  obtain ⟨p, -, -, rfl⟩ := find?_sound h
  exact Nat.succ_pos _

theorem find?_rest (h : find? text = some f) :
    find? (dropBytes f.span.stop text) = none := by
  obtain ⟨opening, body, closing, rest, rfl, rfl, hrest⟩ := find?_parts h
  have hdrop := dropBytes_byteSize_append (opening ++ (body ++ closing)) rest
  simp only [byteSize_append, List.append_assoc, ← Nat.add_assoc] at hdrop
  rw [hdrop]
  rcases hrest with rfl | ⟨after, rfl⟩
  · rfl
  · rfl

end Found

end FrontMatter

end SlideDirectives
