import SlideDirectives.Proofs.Yaml.Alone
import SlideDirectives.Proofs.Yaml.Page.Read

/-!
# A word in the place of a value

In a page the value of one field is overwritten by a word of letters and
digits. The rows around the field stay as they are, and the word is one token
and one entry there, whether or not it spells a value.
-/

set_option autoImplicit false

namespace SlideDirectives.Yaml.Page

open Text

variable {w : List Char}

theorem plainLine_word (hw : w ≠ []) (hword : w.all Char.isAlphanum = true) : PlainLine w := by
  obtain ⟨c, cs, rfl⟩ := List.exists_cons_of_ne_nil hw
  have hall := List.all_eq_true.mp hword
  have hc := hall c List.mem_cons_self
  refine PlainLine.of_word ?_ (ne_of_eq hc rfl) (ne_of_eq hc rfl)
  rw [List.all_eq_true]
  intro d hd
  simp [isWord, isValueChar, hall d hd]

section Rows

def ended (newline : List Char) (rows : List Row) : List Char :=
  rows.flatMap fun r => glued newline r.lines ++ newline

theorem ended_cons (newline : List Char) (r : Row) (rows : List Row) :
    ended newline (r::rows) = glued newline r.lines ++ newline ++ ended newline rows := rfl

/-- The lines of rows around a line. -/
def linesAround (above : List Row) (line : List Char) (below : List Row) : List (List Char) :=
  above.flatMap Row.lines ++ line :: below.flatMap Row.lines

theorem linesAround_inline {line : List Char} (h : line.all isInline = true) (above below : List Row) :
    ∀ l ∈ linesAround above line below, l.all isInline = true := by
  intro l hl
  rcases List.mem_append.mp hl with hl | hl
  · exact rows_inline above l hl
  · rcases List.mem_cons.mp hl with rfl | hl
    · exact h
    · exact rows_inline below l hl

theorem Field.line_inline (f : Field) (h : w.all isInline = true) :
    (f.lead ++ (w ++ f.tail)).all isInline = true := by
  rw [List.all_append, List.all_append, f.lead_inline, h, f.tail_inline]
  rfl

theorem glued_append (newline : List Char) (rows : List Row) (l : List Char) (ls : List (List Char)) :
    glued newline (rows.flatMap Row.lines ++ l::ls) =
      ended newline rows ++ (l ++ ls.flatMap (newline ++ ·)) := by
  induction rows with
  | nil => rfl
  | cons r rows ih =>
    obtain ⟨k, ks, hlines⟩ := r.lines_cons
    obtain ⟨k', ks', hrest⟩ : ∃ k' ks', rows.flatMap Row.lines ++ l::ls = k'::ks' := by
      cases hrows : rows.flatMap Row.lines with
      | nil => exact ⟨l, ls, rfl⟩
      | cons k' ks' => exact ⟨k', ks' ++ l::ls, rfl⟩
    rw [hrest] at ih
    rw [List.flatMap_cons, List.append_assoc, hrest, ended_cons, hlines, List.cons_append,
      List.append_assoc _ (ended newline rows), ← ih]
    simp [glued]

end Rows

section Tokens

open Scanner

variable {dest : List Char} {n : Nat} {ts : List Token}

def ahead (rows : List Row) (dest : List Char) : List Char :=
  ended ['\n'] (rows.dropWhile (·.field?.isNone)) ++ dest

theorem ended_fill (spaces : Nat) (note : Option Note) (rows : List Row) :
    ended ['\n'] (.fill spaces note :: rows) =
      List.replicate spaces ' ' ++ (hashChars note ++ '\n' :: ended ['\n'] rows) := by
  rw [ended_cons]
  simp [Row.lines, glued]

theorem ended_field (f : Field) (rows : List Row) :
    ended ['\n'] (.field f :: rows) = f.chars ['\n'] ++ '\n' :: ended ['\n'] rows := by
  rw [ended_cons, List.append_assoc]
  rfl

theorem clears_ended (rows : List Row) (hdest : Clears dest dest) :
    Clears (ended ['\n'] rows ++ dest) (ahead rows dest) := by
  induction rows with
  | nil => exact hdest
  | cons r rows ih =>
    cases r with
    | fill spaces note =>
      change Clears (ended ['\n'] (.fill spaces note :: rows) ++ dest) (ahead rows dest)
      have hfill := Clears.fill spaces note ih
      rw [ended_fill]
      simpa only [List.append_assoc, List.cons_append] using hfill
    | field f =>
      obtain ⟨c, rest, hchars, hstart⟩ := f.chars_cons ['\n']
      change Clears _ (ended ['\n'] (.field f :: rows) ++ dest)
      rw [ended_field, hchars]
      exact .key hstart

/-- The tokens of rows come before those of what stands behind them. -/
theorem scans_ended (rows : List Row) (hdest : Clears dest dest)
    (h : ∀ opened found allowed c, Leads allowed c dest →
      Scans (between opened found allowed c) n (found.reverse ++ (openTokens opened ++ ts)))
    {opened allowed : Bool} {found : List Token} {c : Cursor} (hleads : Leads allowed c (ahead rows dest)) :
    Scans (between opened found allowed c) (n + (ended ['\n'] rows).length) (found.reverse ++
      (openTokens opened ++
        (((rows.filterMap Row.field?).map Field.binding).flatMap Binding.tokens ++ ts))) := by
  -- On the rows with the state free: each row is come to in the state that the one above it leaves.
  induction rows generalizing opened allowed found c with
  | nil => exact h opened found allowed c hleads
  | cons r rows ih =>
    cases r with
    | fill spaces note =>
      apply (ih hleads).mono
      rw [ended_fill, List.length_append, List.length_append, List.length_cons]
      omega
    | field f =>
      have hafter : Follows ('\n' :: (ended ['\n'] rows ++ dest)) (ahead rows dest) :=
        Or.inr ⟨_, rfl, clears_ended rows hdest⟩
      have hfield : Leads allowed c (f.chars ['\n'] ++ '\n' :: (ended ['\n'] rows ++ dest)) := by
        change Leads allowed c (ended ['\n'] (.field f :: rows) ++ dest) at hleads
        rwa [ended_field, List.append_assoc, List.cons_append] at hleads
      have hscans : Scans (between opened found allowed c) _ (found.reverse ++ (openTokens opened ++ _)) :=
        scans_field f hafter (fun _ _ _ hleads => ih hleads) hfield
      have hfields : (Row.field f :: rows).filterMap Row.field? = f :: rows.filterMap Row.field? := rfl
      rw [hfields, List.map_cons, List.flatMap_cons, List.append_assoc]
      apply hscans.mono
      rw [ended_field, List.length_append, List.length_cons]
      omega

def bindings (rows : List Row) : List Binding :=
  (rows.filterMap Row.field?).map Field.binding

theorem ofText_around (f : Field) (hline : PlainLine w)
    (above below : List Row) :
    TokenStream.ofText (glued ['\n'] (linesAround above (f.lead ++ (w ++ f.tail)) below)) =
      ⟨tokensAround (bindings above) f.key.chars w .plain (bindings below), false⟩ := by
  obtain ⟨c, cs, hchars, hstart, -⟩ := isKey_cons f.key.wellFormed
  obtain ⟨dest, hdest⟩ : ∃ dest, dest = f.key.chars ++ ':' :: (List.replicate (f.gap + 1) ' ' ++
    (w ++ (List.replicate f.spaces ' ' ++ (noteChars f.note ++ behind below)))) := ⟨_, rfl⟩
  have htext : glued ['\n'] (linesAround above (f.lead ++ (w ++ f.tail)) below) =
      ended ['\n'] above ++ dest := by
    rw [linesAround, glued_append, hdest]
    simp [Field.lead, Field.tail, behind]
  have hclears : Clears dest dest := by
    rw [hdest, hchars]
    exact .key hstart
  have hspelled := spelled_of hline.spelled
  have hhangs : hangs w = true := by
    rw [← List.append_nil w, hangs_inline hline.inline]
    rfl
  have hscans : ∀ opened found allowed c, Leads allowed c dest → Scans (between opened found allowed c)
      ((joined ['\n'] below).length + 1 + 2) (found.reverse ++ (openTokens opened ++
        (.key :: .scalar f.key.chars .plain :: .value :: .scalar w .plain ::
          mappingTokens true (bindings below)))) := by
    intro opened found allowed c hleads
    rw [hdest] at hleads
    exact scans_leads f.key rfl (fun _ m => scans_spelled hspelled hhangs
      (isSpacing_last hline.last) f.gap f.spaces f.note (follows_behind below)
      (fun _ _ _ => scans_joined below) m) hleads
  have hprintable := all_isPrintable
    (linesAround_inline (f.line_inline hline.inline) above below)
  have hlength : (joined ['\n'] below).length + 1 + 2 + (ended ['\n'] above).length <
      (ended ['\n'] above ++ dest).length + 1 := by
    have hbehind := length_behind below
    obtain ⟨d, ds, rfl⟩ := List.exists_cons_of_ne_nil hline.ne_nil
    rw [hdest, hchars]
    simp only [List.length_append, List.length_cons, List.length_replicate]
    omega
  rw [TokenStream.ofText, if_pos hprintable, htext]
  exact @scans_ended dest _ _ above hclears hscans false true [] _
    (leads_clears (clears_ended above hclears) Mark.start rfl) _ _ hlength

end Tokens

section Entries

open Entry

variable {newline : List Char}

def Field.wordEntry (f : Field) (w : List Char) : Entry :=
  ⟨⟨0, byteSize f.key.chars⟩, some ⟨byteSize f.lead, byteSize f.lead + byteSize w⟩,
    byteSize (trimEnd (f.lead ++ (w ++ f.tail)))⟩

theorem ended_eq (newline : List Char) (rows : List Row) :
    ended newline rows = (rows.flatMap Row.lines).flatMap (· ++ newline) := by
  induction rows with
  | nil => rfl
  | cons r rows ih =>
    obtain ⟨l, ls, hlines⟩ := r.lines_cons
    rw [ended_cons, ih, List.flatMap_cons, List.flatMap_append, hlines, glued_newline]

theorem advance_word (f : Field) (hline : PlainLine w) (start : Nat)
    (found : List Marked) :
    Marked.advance start found (f.lead ++ (w ++ f.tail)) =
      ⟨(f.wordEntry w).shift start, false⟩ :: found := by
  have hspelled := spelled_of hline.spelled
  obtain ⟨c, cs, rfl, hspacing, -, hliteral, hfolded, -⟩ := hspelled.head
  have hinline : inlineValue? (c::cs ++ f.tail) = some (c::cs) :=
    inlineValue?_spelled hspelled hline.inline hline.last f.spaces f.note
  have hgap : ∀ d ∈ (c::cs ++ f.tail).head?, isGap d = false := by
    intro d hd
    obtain rfl := Option.some.inj hd
    exact (Bool.or_eq_false_iff.mp hspacing).1
  have hentry := ofLine?_key f.key (n := f.gap + 1) (Or.inl (Nat.succ_pos _)) hgap
  have hlead : f.lead ++ (c::cs ++ f.tail) =
      f.key.chars ++ ':' :: (List.replicate (f.gap + 1) ' ' ++ (c::cs ++ f.tail)) := by
    simp [Field.lead]
  have hblock : opensBlock (c::cs ++ f.tail) = false := by simp [opensBlock, hliteral, hfolded]
  rw [← byteSize_lead, ← hlead, hinline, Option.map_some] at hentry
  rw [advance_key f.key hlead hentry start, marked, Option.any_some, dropBytes_byteSize_append, hblock]
  rfl

theorem entries_around (f : Field) (hline : PlainLine w)
    (newline : Newline) (above below : List Row) :
    entries (glued newline.chars (linesAround above (f.lead ++ (w ++ f.tail)) below)) =
      (placed newline.chars 0 above).map Prod.snd ++
        (f.wordEntry w).shift (byteSize (ended newline.chars above)) ::
          (placed newline.chars (byteSize (ended newline.chars above) +
            byteSize (f.lead ++ (w ++ f.tail) ++ newline.chars)) below).map Prod.snd := by
  have hinline := linesAround_inline (f.line_inline hline.inline) above below
  have hfound : ∀ m ∈ (⟨(f.wordEntry w).shift (byteSize (ended newline.chars above)), false⟩ : Marked) ::
      ((placed newline.chars 0 above).map (fun x => (⟨x.2, false⟩ : Marked))).reverse,
      m.block = false := by
    intro m hm
    rcases List.mem_cons.mp hm with rfl | hm
    · rfl
    · obtain ⟨x, -, rfl⟩ := List.mem_map.mp (List.mem_reverse.mp hm)
      rfl
  rw [entries_eq_scan, scan_glued hinline, linesAround, scanLines_append, ← ended_eq, Nat.zero_add,
    scanLines_rows above 0 (by simp), scanLines, advance_word f hline, List.append_nil,
    scanLines_rows below _ hfound]
  simp [Function.comp_def]

end Entries

end SlideDirectives.Yaml.Page
