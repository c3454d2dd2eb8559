import SlideDirectives.Proofs.Text.Overwrite
import SlideDirectives.Proofs.Yaml.EntryPlace

/-!
# The scan of entries without its source

Of the text before a line the scan needs only the entries that were found, and
of the last one whether its value is written as a block. So two texts have the
same entries if their lines play the same roles. At least a newline stands
between an entry and the next one, and at least a colon between its key and its
value.
-/

set_option autoImplicit false

namespace SlideDirectives.Yaml.Entry

open Text

def opensBlock (cs : List Char) : Bool :=
  cs.head?.any (fun c => c == '|' || c == '>')

/-- An entry with whether its value is written as a block. -/
structure Marked where
  entry : Entry
  block : Bool
  deriving DecidableEq, Repr

/-- What a line is to the scan. -/
inductive Role where
  | idle
  | continues
  | opens (m : Marked)
  deriving DecidableEq, Repr

def grow (line : List Char) (start : Nat) (e : Entry) : Entry :=
  let stop := start + byteSize (trimEnd line)
  let valueStart := (e.value.map (·.start)).getD (start + (byteSize line - byteSize (trimStart line)))
  { e with value := some ⟨valueStart, stop⟩, stop := stop }

def marked (line : List Char) (e : Entry) : Marked :=
  ⟨e, e.value.any (fun v => opensBlock (dropBytes v.start line))⟩

def Role.ofLine (line : List Char) : Role :=
  if (trim line).isEmpty then .idle
  else if line.head?.any isGap then .continues
  else if isStructural line then .idle
  else match ofLine? line with
    | none => .idle
    | some e => .opens (marked line e)

def scanned (l : Line) : List Char :=
  dropEndWhile (· == '\r') l.content

namespace Marked

def shift (m : Marked) (n : Nat) : Marked :=
  ⟨m.entry.shift n, m.block⟩

def extend (line : List Char) (start : Nat) (m : Marked) : Marked :=
  if m.block || (trimStart line).head? != some '#' then
    ⟨m.entry.grow line start,
      if m.entry.value.isSome then m.block else opensBlock (trimStart line)⟩
  else m

def advance (start : Nat) (found : List Marked) (line : List Char) : List Marked :=
  match Role.ofLine line with
  | .idle => found
  | .continues => found.modifyHead (extend line start)
  | .opens m => m.shift start :: found

def scan : Nat → List Marked → List Line → List Marked
  | _, found, [] => found
  | start, found, l::ls => scan (start + l.size) (advance start found (scanned l)) ls

theorem forall_advance {Q : Marked → Prop} {start : Nat} {found : List Marked} {line : List Char}
    (hfound : ∀ m ∈ found, Q m)
    (hopens : ∀ m, Role.ofLine line = .opens m → Q (m.shift start))
    (hcontinues : Role.ofLine line = .continues → ∀ m ∈ found, Q (m.extend line start)) :
    ∀ m ∈ advance start found line, Q m := by
  intro m' hm'
  rw [advance] at hm'
  cases hrole : Role.ofLine line with
  | idle =>
    rw [hrole] at hm'
    exact hfound m' hm'
  | opens m =>
    rw [hrole] at hm'
    rcases List.mem_cons.mp hm' with rfl | hm'
    · exact hopens m hrole
    · exact hfound m' hm'
  | continues =>
    rw [hrole] at hm'
    cases found with
    | nil => cases hm'
    | cons m ms =>
      rcases List.mem_cons.mp hm' with rfl | hm'
      · exact hcontinues hrole m List.mem_cons_self
      · exact hfound m' (List.mem_cons_of_mem m hm')

end Marked

section Shape

/-- The parts of an entry in order, all of them before `limit`. -/
structure Lies (e : Entry) (limit : Nat) : Prop where
  key_lt : e.key.start < e.key.stop
  key_le : e.key.stop ≤ e.stop
  stop_lt : e.stop < limit
  apart : ∀ v, e.value = some v → e.key.stop < v.start
  start_lt : ∀ v, e.value = some v → v.start < limit
  value_lt : ∀ v, e.value = some v → v.stop < limit

theorem Lies.mono {e : Entry} {m n : Nat} (h : e.Lies m) (hmn : m ≤ n) : e.Lies n :=
  ⟨h.key_lt, h.key_le, Nat.lt_of_lt_of_le h.stop_lt hmn, h.apart,
    fun v hv => Nat.lt_of_lt_of_le (h.start_lt v hv) hmn,
    fun v hv => Nat.lt_of_lt_of_le (h.value_lt v hv) hmn⟩

theorem Lies.shift {e : Entry} {limit : Nat} (h : e.Lies limit) (n : Nat) :
    (e.shift n).Lies (limit + n) := by
  constructor
  · exact Nat.add_lt_add_right h.key_lt n
  · exact Nat.add_le_add_right h.key_le n
  · exact Nat.add_lt_add_right h.stop_lt n
  · intro v hv
    obtain ⟨w, hw, rfl⟩ := Option.map_eq_some_iff.mp hv
    exact Nat.add_lt_add_right (h.apart w hw) n
  · intro v hv
    obtain ⟨w, hw, rfl⟩ := Option.map_eq_some_iff.mp hv
    exact Nat.add_lt_add_right (h.start_lt w hw) n
  · intro v hv
    obtain ⟨w, hw, rfl⟩ := Option.map_eq_some_iff.mp hv
    exact Nat.add_lt_add_right (h.value_lt w hw) n

theorem byteSize_trimEnd_le (cs : List Char) : byteSize (trimEnd cs) ≤ byteSize cs :=
  byteSize_le_of_isPrefix (trimEnd_isPrefix cs)

theorem trimEnd_colon (xs ys : List Char) : trimEnd (xs ++ ':' :: ys) = xs ++ ':' :: trimEnd ys := by
  have hcolon : trimEnd (':' :: ys) = ':' :: trimEnd ys := dropEndWhile_cons (by decide) ys
  rw [← hcolon]
  apply dropEndWhile_append
  change trimEnd (':' :: ys) ≠ []
  rw [hcolon]
  exact List.cons_ne_nil _ _

theorem byteSize_pos {cs : List Char} (h : cs ≠ []) : 0 < byteSize cs := by
  cases cs with
  | nil => exact absurd rfl h
  | cons c cs => exact Nat.lt_of_lt_of_le c.utf8Size_pos (Nat.le_add_right _ _)

theorem ofLine?_lies {line : List Char} {e : Entry} (h : ofLine? line = some e) :
    e.Lies (byteSize line + 1) := by
  have hfits := ofLine?_fits h
  have hline := byteSize_trimEnd_le line
  obtain ⟨written, gap, valueGap, rest, hparts, -, -, -, hne, rfl⟩ := ofLine?_parts h
  have hwritten := byteSize_trimEnd_le written
  have hstop := trimEnd_colon (written ++ gap) (valueGap ++ rest)
  rw [← hparts] at hstop
  constructor
  · exact byteSize_pos hne
  · simp only [hstop, byteSize_append]
    omega
  · exact Nat.lt_succ_of_le hline
  · intro v hv
    obtain ⟨value, -, rfl⟩ := Option.map_eq_some_iff.mp hv
    simp only
    omega
  · intro v hv
    have hvalue := hfits.value v hv
    exact Nat.lt_succ_of_le (Nat.le_trans hvalue.ordered hvalue.bounded)
  · intro v hv
    exact Nat.lt_succ_of_le (hfits.value v hv).bounded

theorem grow_lies {line : List Char} {start : Nat} {e : Entry} (h : e.Lies start) :
    (e.grow line start).Lies (start + byteSize line + 1) := by
  have hline := byteSize_trimEnd_le line
  have hkey := h.key_le
  have hstop := h.stop_lt
  constructor
  · exact h.key_lt
  · change e.key.stop ≤ start + byteSize (trimEnd line)
    omega
  · change start + byteSize (trimEnd line) < start + byteSize line + 1
    omega
  · intro v hv
    obtain rfl := Option.some.inj hv
    cases hvalue : e.value with
    | some w => exact h.apart w hvalue
    | none =>
      change e.key.stop < start + _
      omega
  · intro v hv
    obtain rfl := Option.some.inj hv
    cases hvalue : e.value with
    | some w =>
      have hw := h.start_lt w hvalue
      change w.start < start + byteSize line + 1
      omega
    | none =>
      change start + _ < start + byteSize line + 1
      omega
  · intro v hv
    obtain rfl := Option.some.inj hv
    change start + byteSize (trimEnd line) < start + byteSize line + 1
    omega

end Shape

section Block

variable {source before line after : List Char}

theorem head_takeBytes {c : Char} {cs : List Char} {n : Nat} (h : c.utf8Size ≤ n) :
    (takeBytes n (c::cs)).head? = some c := by
  rw [takeBytes, if_pos h]
  rfl

theorem opensBlock_of_isBlank {c : Char} (cs : List Char) (h : isBlank c = true) :
    opensBlock (c::cs) = false := by
  have hbar : c ≠ '|' := by
    rintro rfl
    exact absurd h (by decide)
  have hgreater : c ≠ '>' := by
    rintro rfl
    exact absurd h (by decide)
  simp [opensBlock, hbar, hgreater]

theorem inlineValue?_nil {c : Char} {cs : List Char} (h : inlineValue? (c::cs) = some []) :
    isBlank c = true := by
  simp only [inlineValue?] at h
  split at h
  · cases h
  · split at h
    · obtain hquoted : (quoted? (c::cs)).getD (c::cs) = [] := Option.some.inj h
      cases hclose : closeGo c cs <;> simp [quoted?, hclose] at hquoted
    · have htrim : trimEnd (c :: beforeComment (isGap c) cs) = [] := Option.some.inj h
      cases hblank : isBlank c with
      | true => rfl
      | false =>
        rw [trimEnd, dropEndWhile_cons hblank] at htrim
        cases htrim

theorem opensBlock_takeBytes {cs v : List Char} (h : inlineValue? cs = some v) {n : Nat}
    (hn : byteSize v ≤ n) (tail : List Char) :
    opensBlock (takeBytes n (cs ++ tail)) = opensBlock cs := by
  cases cs with
  | nil => cases h
  | cons c cs =>
    rw [List.cons_append, takeBytes]
    split
    · rfl
    · cases v with
      | nil => exact (opensBlock_of_isBlank cs (inlineValue?_nil h)).symm
      | cons d v =>
        obtain ⟨rest, hrest⟩ := inlineValue?_isPrefix h
        obtain rfl : d = c := (List.cons.inj hrest).1
        rw [byteSize] at hn
        omega

/-- Whether the value is written as a block is what the mark says, and will be
if the value goes on. -/
def Marked.Right (m : Marked) (source : List Char) : Prop :=
  match m.entry.value with
  | none => m.block = false
  | some v => ∀ stop, v.stop ≤ stop → opensBlock (slice source ⟨v.start, stop⟩) = m.block

theorem Marked.right_none {m : Marked} (hv : m.entry.value = none) :
    m.Right source ↔ m.block = false := by
  simp only [Right, hv]

theorem Marked.right_some {m : Marked} {v : Span} (hv : m.entry.value = some v) :
    m.Right source ↔ ∀ stop, v.stop ≤ stop → opensBlock (slice source ⟨v.start, stop⟩) = m.block := by
  simp only [Right, hv]

theorem Marked.Right.isBlockValue_eq {m : Marked} (h : m.Right source) :
    isBlockValue source m.entry = m.block := by
  rw [isBlockValue]
  cases hv : m.entry.value with
  | none => exact ((right_none hv).mp h).symm
  | some v => exact (right_some hv).mp h v.stop (Nat.le_refl _)

theorem ofLine?_value {e : Entry} {v : Span} (h : ofLine? line = some e) (hv : e.value = some v) :
    ∃ lead rest value, line = lead ++ rest ∧ inlineValue? rest = some value ∧
      v = ⟨byteSize lead, byteSize lead + byteSize value⟩ := by
  obtain ⟨written, gap, valueGap, rest, hparts, -, -, -, -, rfl⟩ := ofLine?_parts h
  obtain ⟨value, hvalue, rfl⟩ := Option.map_eq_some_iff.mp hv
  have hlead : byteSize (written ++ gap ++ ':' :: valueGap) =
      byteSize written + byteSize gap + 1 + byteSize valueGap := by
    have hcolon : (':' : Char).utf8Size = 1 := rfl
    simp only [byteSize_append, byteSize, hcolon]
    omega
  refine ⟨written ++ gap ++ ':' :: valueGap, rest, value, ?_, hvalue, ?_⟩
  · rw [hparts]
    simp
  · rw [hlead]

theorem marked_right {e : Entry} (h : ofLine? line = some e)
    (hs : source = before ++ (line ++ after)) :
    ((marked line e).shift (byteSize before)).Right source := by
  cases hv : e.value with
  | none =>
    have hnone : ((marked line e).shift (byteSize before)).entry.value = none := by
      simp [Marked.shift, Entry.shift, marked, hv]
    rw [Marked.right_none hnone]
    simp [Marked.shift, marked, hv]
  | some v =>
    have hsome : ((marked line e).shift (byteSize before)).entry.value =
        some (v.shift (byteSize before)) := by
      simp [Marked.shift, Entry.shift, marked, hv]
    rw [Marked.right_some hsome]
    intro stop hstop
    obtain ⟨lead, rest, value, rfl, hvalue, rfl⟩ := ofLine?_value h hv
    have hblock : ((marked (lead ++ rest) e).shift (byteSize before)).block = opensBlock rest := by
      simp [Marked.shift, marked, hv, dropBytes_byteSize_append]
    have hsource : source = (before ++ lead) ++ (rest ++ after) := by
      rw [hs]
      simp
    have hstart : byteSize lead + byteSize before = byteSize (before ++ lead) := by
      rw [byteSize_append, Nat.add_comm]
    simp only [Span.shift, hstart] at hstop ⊢
    rw [hblock, slice, Span.size, hsource, dropBytes_byteSize_append]
    apply opensBlock_takeBytes hvalue
    simp only
    omega

theorem trimStart_cons {cs : List Char} (h : (trim cs).isEmpty = false) :
    ∃ c rest, trimStart cs = c::rest ∧ c.utf8Size ≤ byteSize (trim cs) := by
  cases hcs : trimStart cs with
  | nil =>
    rw [trim, hcs] at h
    cases h
  | cons c rest =>
    refine ⟨c, rest, rfl, ?_⟩
    have hblank : isBlank c = false := by
      have hnot := List.head?_dropWhile_not isBlank cs
      rw [trimStart] at hcs
      simpa [hcs] using hnot
    rw [trim, hcs, trimEnd, dropEndWhile_cons hblank]
    exact Nat.le_add_right _ _

theorem extend_right {m : Marked} (hs : source = before ++ (line ++ after))
    (hline : (trim line).isEmpty = false) (h : m.Right source)
    (hl : m.entry.Lies (byteSize before)) : (m.extend line (byteSize before)).Right source := by
  rw [Marked.extend]
  split
  · rw [Marked.right_some rfl]
    intro stop hstop
    cases hv : m.entry.value with
    | some v =>
      have hvalue := hl.value_lt v hv
      apply (Marked.right_some hv).mp h
      simp only at hstop
      omega
    | none =>
      obtain ⟨c, rest, hwords, hc⟩ := trimStart_cons hline
      have hne : trim line ≠ [] := by simpa using hline
      have hsource : source = (before ++ line.takeWhile isBlank) ++ (c :: (rest ++ after)) := by
        rw [hs, ← List.cons_append, ← hwords]
        conv => lhs; rw [← takeWhile_append_trimStart line]
        simp
      have hindent := byteSize_sub_trimStart line
      simp only [Option.map_none, Option.getD_none, trimEnd_eq hne, byteSize_append,
        Option.isSome_none, Bool.false_eq_true, if_false, hwords] at hstop ⊢
      rw [hwords] at hindent
      rw [hindent, ← byteSize_append, slice, Span.size, hsource, dropBytes_byteSize_append,
        opensBlock, head_takeBytes]
      · rfl
      · simp only [byteSize_append]
        omega
  · exact h

end Block

section Scan

variable {source before after : List Char}

structure Marked.Kept (m : Marked) (source : List Char) (limit : Nat) : Prop where
  lies : m.entry.Lies limit
  right : m.Right source

theorem Marked.Kept.mono {m : Marked} {k n : Nat} (h : m.Kept source k) (hkn : k ≤ n) :
    m.Kept source n :=
  ⟨h.lies.mono hkn, h.right⟩

theorem role_opens {line : List Char} {m : Marked} (h : Role.ofLine line = .opens m) :
    ofLine? line = some m.entry ∧ m = marked line m.entry := by
  unfold Role.ofLine at h
  split at h
  · cases h
  · split at h
    · cases h
    · split at h
      · cases h
      · split at h
        · cases h
        · rename_i e he
          obtain rfl := Role.opens.inj h
          exact ⟨he, rfl⟩

theorem role_continues {line : List Char} (h : Role.ofLine line = .continues) :
    (trim line).isEmpty = false := by
  unfold Role.ofLine at h
  split at h
  · cases h
  · rename_i hline
    exact eq_false_of_ne_true hline

theorem extend_entry {m : Marked} {line : List Char} (h : m.Right source) (start : Nat) :
    (m.extend line start).entry = Entry.extend source line start m.entry := by
  rw [Marked.extend, Entry.extend, h.isBlockValue_eq]
  split
  · rfl
  · rfl

theorem advance_role (source : List Char) (start : Nat) (found : List Entry) (l : Line) :
    Entry.advance source start found l =
      match Role.ofLine (scanned l) with
      | .idle => found
      | .continues => found.modifyHead (Entry.extend source (scanned l) start)
      | .opens m => m.entry.shift start :: found := by
  unfold Entry.advance
  extract_lets line
  have hline : scanned l = line := rfl
  rw [hline, Role.ofLine]
  split
  · rfl
  · split
    · cases found <;> rfl
    · split
      · rfl
      · cases ofLine? line <;> rfl

theorem byteSize_scanned_le (l : Line) : byteSize (scanned l) ≤ byteSize l.content :=
  byteSize_le_of_isPrefix (dropEndWhile_isPrefix l.content)

theorem scanned_isPrefix (l : Line) : scanned l <+: l.chars :=
  (dropEndWhile_isPrefix l.content).trans l.content_isPrefix

theorem advance_entries {found : List Marked} (l : Line)
    (hf : ∀ m ∈ found, m.Kept source (byteSize before)) :
    (Marked.advance (byteSize before) found (scanned l)).map Marked.entry =
      Entry.advance source (byteSize before) (found.map Marked.entry) l := by
  rw [advance_role, Marked.advance]
  cases Role.ofLine (scanned l) with
  | idle => rfl
  | opens m => rfl
  | continues =>
    cases found with
    | nil => rfl
    | cons m ms =>
      have hm := hf m List.mem_cons_self
      simp only [List.modifyHead_cons, List.map_cons, extend_entry hm.right]

theorem advance_marked {found : List Marked} (l : Line)
    (hs : source = before ++ (l.chars ++ after))
    (hf : ∀ m ∈ found, m.Kept source (byteSize before)) :
    ∀ m ∈ Marked.advance (byteSize before) found (scanned l),
      m.Kept source (byteSize before + byteSize (scanned l) + 1) := by
  obtain ⟨ending, hl⟩ := scanned_isPrefix l
  rw [← hl, List.append_assoc] at hs
  apply Marked.forall_advance
  · exact fun m hm => (hf m hm).mono (by omega)
  · intro m hrole
    obtain ⟨hline, hmarked⟩ := role_opens hrole
    have hlies := (ofLine?_lies hline).shift (byteSize before)
    have hright := marked_right hline hs
    rw [← hmarked] at hright
    exact ⟨hlies.mono (by omega), hright⟩
  · intro hrole m hm
    have hkept := hf m hm
    refine ⟨?_, extend_right hs (role_continues hrole) hkept.right hkept.lies⟩
    rw [Marked.extend]
    split
    · exact grow_lies hkept.lies
    · exact hkept.lies.mono (by omega)

theorem extend_key (m : Marked) (line : List Char) (start : Nat) :
    (m.extend line start).entry.key = m.entry.key := by
  rw [Marked.extend]
  split <;> rfl

theorem role_key {line : List Char} {m : Marked} (h : Role.ofLine line = .opens m) :
    ∃ key rest, line = key ++ rest ∧ m.entry.key = ⟨0, byteSize key⟩ := by
  obtain ⟨hline, -⟩ := role_opens h
  obtain ⟨written, gap, valueGap, rest, hparts, -, -, -, -, he⟩ := ofLine?_parts hline
  obtain ⟨blanks, hblanks⟩ := trimEnd_isPrefix written
  refine ⟨trimEnd written, blanks ++ gap ++ ':' :: (valueGap ++ rest), ?_, ?_⟩
  · rw [hparts]
    simp only [← List.append_assoc, hblanks]
  · rw [he]

def Ordered (found : List Marked) : Prop :=
  found.Pairwise (fun later earlier => earlier.entry.Lies later.entry.key.start)

theorem advance_ordered {found : List Marked} {start : Nat} (line : List Char)
    (hl : ∀ m ∈ found, m.entry.Lies start) (ho : Ordered found) :
    Ordered (Marked.advance start found line) := by
  rw [Marked.advance]
  cases hrole : Role.ofLine line with
  | idle => exact ho
  | opens m =>
    obtain ⟨key, rest, -, hkey⟩ := role_key hrole
    have hstart : (m.shift start).entry.key.start = start := by
      simp [Marked.shift, Entry.shift, Span.shift, hkey]
    rw [Ordered, List.pairwise_cons, hstart]
    exact ⟨hl, ho⟩
  | continues =>
    cases found with
    | nil => exact ho
    | cons m ms =>
      obtain ⟨hhead, htail⟩ := List.pairwise_cons.mp ho
      rw [Ordered, List.modifyHead_cons, List.pairwise_cons, extend_key]
      exact ⟨hhead, htail⟩

theorem advance_marked_ended {found : List Marked} {l : Line} (hl : l.ended = true)
    (hs : source = before ++ (l.chars ++ after))
    (hf : ∀ m ∈ found, m.Kept source (byteSize before)) :
    ∀ m ∈ Marked.advance (byteSize before) found (scanned l),
      m.Kept source (byteSize (before ++ l.chars)) := by
  have hscanned := byteSize_scanned_le l
  intro m hm
  apply (advance_marked l hs hf m hm).mono
  rw [byteSize_append, l.byteSize_chars, Line.size, hl, Bool.toNat_true]
  omega

/-- The scan without the source finds the entries, marked right and in order. -/
theorem scan_marked {found : List Marked} {ls : List Line} (hcut : IsCut ls)
    (hs : source = before ++ ls.flatMap Line.chars)
    (hf : ∀ m ∈ found, m.Kept source (byteSize before)) (ho : Ordered found) :
    scanGo source (byteSize before) (found.map Marked.entry) ls =
        ((Marked.scan (byteSize before) found ls).map Marked.entry).reverse ∧
      Ordered (Marked.scan (byteSize before) found ls) ∧
      ∀ m ∈ Marked.scan (byteSize before) found ls, m.Kept source (byteSize source + 1) := by
  induction ls generalizing before found with
  | nil =>
    rw [List.flatMap_nil, List.append_nil] at hs
    rw [hs] at hf ⊢
    exact ⟨rfl, ho, fun m hm => (hf m hm).mono (Nat.le_succ _)⟩
  | cons l ls ih =>
    obtain ⟨hl, hcut⟩ := hcut
    have hline := List.flatMap_cons ▸ hs
    have hordered := advance_ordered (scanned l) (fun m hm => (hf m hm).lies) ho
    rw [scanGo_cons, Marked.scan, ← advance_entries l hf]
    rcases hl.ended with hended | ⟨rfl, -⟩
    · have hnext : byteSize before + l.size = byteSize (before ++ l.chars) := by
        rw [byteSize_append, l.byteSize_chars]
      have hkept := advance_marked_ended hended hline hf
      rw [hnext]
      exact ih hcut (by rw [hs]; simp) hkept hordered
    -- The last line may lack the newline, and no entry goes on behind it.
    · have hscanned := byteSize_le_of_isPrefix (scanned_isPrefix l)
      have hsize : byteSize source = byteSize before + byteSize l.chars := by
        rw [hline, List.flatMap_nil, List.append_nil, byteSize_append]
      refine ⟨rfl, hordered, fun m hm => (advance_marked l hline hf m hm).mono ?_⟩
      omega

theorem scan_lines (source : List Char) :
    entries source = ((Marked.scan 0 [] (lines source)).map Marked.entry).reverse ∧
      Ordered (Marked.scan 0 [] (lines source)) ∧
      ∀ m ∈ Marked.scan 0 [] (lines source), m.Kept source (byteSize source + 1) := by
  have hsource : source = [] ++ (lines source).flatMap Line.chars :=
    (flatMap_chars_lines source).symm
  have hnone : ∀ m ∈ ([] : List Marked), m.Kept source (byteSize []) := by simp
  exact scan_marked (isCut_lines source) hsource hnone List.Pairwise.nil

theorem entries_eq_scan (source : List Char) :
    entries source = ((Marked.scan 0 [] (lines source)).map Marked.entry).reverse :=
  (scan_lines source).1

theorem entries_ordered (source : List Char) :
    (entries source).Pairwise (fun a b => a.Lies b.key.start) ∧
      ∀ e ∈ entries source, e.Lies (byteSize source + 1) := by
  obtain ⟨hscan, hordered, hkept⟩ := scan_lines source
  rw [hscan]
  constructor
  · rw [List.pairwise_reverse, List.pairwise_map]
    exact hordered
  · intro e he
    obtain ⟨m, hm, rfl⟩ := List.mem_map.mp (List.mem_reverse.mp he)
    exact (hkept m hm).lies

def keySpans : Nat → List Line → List Span
  | _, [] => []
  | start, l::ls =>
    match Role.ofLine (scanned l) with
    | .opens m => m.entry.key.shift start :: keySpans (start + l.size) ls
    | _ => keySpans (start + l.size) ls

theorem scan_keys (start : Nat) (found : List Marked) (ls : List Line) :
    (Marked.scan start found ls).map (·.entry.key) =
      (keySpans start ls).reverse ++ found.map (·.entry.key) := by
  induction ls generalizing start found with
  | nil => rfl
  | cons l ls ih =>
    rw [Marked.scan, ih, keySpans, Marked.advance]
    cases Role.ofLine (scanned l) with
    | idle => rfl
    | opens m =>
      simp only [List.map_cons, List.reverse_cons, List.append_assoc]
      rfl
    | continues =>
      cases found with
      | nil => rfl
      | cons m ms =>
        simp only [List.modifyHead_cons, List.map_cons, extend_key]

theorem map_key_entries (source : List Char) :
    (entries source).map Entry.key = keySpans 0 (lines source) := by
  have hkeys := scan_keys 0 [] (lines source)
  rw [List.map_nil, List.append_nil] at hkeys
  rw [entries_eq_scan, ← List.reverse_inj, List.map_reverse, List.reverse_reverse, List.map_map]
  exact hkeys

end Scan

end SlideDirectives.Yaml.Entry
