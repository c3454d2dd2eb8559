import SlideDirectives.Proofs.Yaml.EntryBytes
import SlideDirectives.Proofs.Yaml.EntryScan

/-!
# The scan of entries with checked cuts

Every text that the scan takes from a line or from the source is cut out by
byte offsets here, and a cut that does not fit ends it. It always gives the
entries.
-/

set_option autoImplicit false

namespace SlideDirectives.Yaml.Entry

open Text

def keyEnd (line : List Char) : Except Span (Option Nat) :=
  match line with
  | [] => .ok none
  | '-' :: _ => do
    let behind ← cutFrom line 1
    return if behind.head?.all isGap then none else plainBytes? (bytes line)
  | c::_ => .ok <|
    if isQuote c then closingBytes? (bytes line)
    else if opensOther line then none
    else plainBytes? (bytes line)

def valueEnd (text : List Char) : Except Span (Option Nat) :=
  match text with
  | [] => .ok none
  | c::_ =>
    if c = '#' then .ok none
    else if isQuote c then .ok (some ((closingBytes? (bytes text)).getD (byteSize text)))
    else do
      let shown ← cut text ⟨0, commentBytes false (bytes text)⟩
      return some (byteSize (trimEnd shown))

def gapSize (cs : List Char) : Nat :=
  byteSize cs - byteSize (cs.dropWhile isGap)

def lineEntry (line : List Char) : Except Span (Option Entry) := do
  match ← keyEnd line with
  | none => return none
  | some stop =>
    let afterKey ← cutFrom line stop
    let colon := stop + gapSize afterKey
    if (bytes line)[colon]? ≠ some colonByte then return none
    let written ← cut line ⟨0, stop⟩
    let keyStop := byteSize (trimEnd written)
    if keyStop = 0 then return none
    let rest ← cutFrom line (colon + 1)
    let start := colon + 1 + gapSize rest
    let text ← cutFrom line start
    let value ← valueEnd text
    return some ⟨⟨0, keyStop⟩, value.map (fun size => ⟨start, start + size⟩),
      byteSize (trimEnd line)⟩

section Line

theorem keyEnd_eq (line : List Char) : keyEnd line = .ok ((writtenKey? line).map byteSize) := by
  unfold keyEnd
  split
  · rfl
  · rename_i cs
    have hcut : cutFrom ('-' :: cs) 1 = .ok cs := cutFrom_append ['-'] cs
    have hopens : opensOther ('-' :: cs) = cs.head?.all isGap := by
      cases cs with
      | nil => rfl
      | cons c cs => rfl
    have hquote : isQuote '-' = false := by decide
    rw [hcut, plainBytes?_bytes, writtenKey?, hquote, if_neg Bool.false_ne_true, hopens]
    change Except.ok (if cs.head?.all isGap = true then none else _) = _
    cases cs.head?.all isGap <;> rfl
  · rename_i c cs _
    simp only [writtenKey?]
    split
    · rename_i hquote
      rw [closingBytes?_bytes hquote]
      rfl
    · split
      · rfl
      · rw [plainBytes?_bytes]

theorem valueEnd_eq (text : List Char) : valueEnd text = .ok ((inlineValue? text).map byteSize) := by
  cases text with
  | nil => rfl
  | cons c cs =>
    simp only [valueEnd, inlineValue?]
    split
    · rfl
    · split
      · rename_i hquote
        rw [closingBytes?_bytes hquote, closingQuote?]
        cases quoted? (c::cs) <;> rfl
      · obtain ⟨behind, hbehind⟩ := beforeComment_isPrefix false (c::cs)
        have hcut := cut_append (beforeComment false (c::cs)) behind
        rw [hbehind] at hcut
        rw [commentBytes_bytes, hcut]
        rfl

theorem gapSize_eq (cs : List Char) : gapSize cs = byteSize (cs.takeWhile isGap) := by
  have hsize := congrArg byteSize (List.takeWhile_append_dropWhile (p := isGap) (l := cs))
  rw [byteSize_append] at hsize
  rw [gapSize]
  omega

theorem byteSize_eq_zero_iff {cs : List Char} : byteSize cs = 0 ↔ cs.isEmpty = true := by
  cases cs with
  | nil => exact ⟨fun _ => rfl, fun _ => rfl⟩
  | cons c cs =>
    have hpos := byteSize_pos (List.cons_ne_nil c cs)
    exact ⟨fun h => absurd h (Nat.ne_of_gt hpos), fun h => by cases h⟩

theorem getElem?_bytes_colon (part tail : List Char) :
    (bytes (part ++ tail))[byteSize part]? = some colonByte ↔ tail.head? = some ':' := by
  rw [bytes_append, ← length_bytes, List.getElem?_append_right (Nat.le_refl _), Nat.sub_self,
    ← List.head?_eq_getElem?]
  exact head?_bytes_eq_iff rfl tail

theorem lineEntry_eq (line : List Char) : lineEntry line = .ok (ofLine? line) := by
  rw [lineEntry, keyEnd_eq]
  cases hwritten : writtenKey? line with
  | none =>
    simp only [ofLine?, hwritten]
    rfl
  | some written =>
    obtain ⟨after, rfl⟩ := writtenKey?_isPrefix hwritten
    have hafter := takeWhile_append_drop (p := isGap) after
    rw [ofLine?, hwritten]
    simp only [bind, Except.bind, Option.bind, Option.map_some, cutFrom_append, cut_append,
      List.drop_left, gapSize_eq]
    generalize after.takeWhile isGap = gap at *
    generalize after.drop gap.length = tail at *
    subst hafter
    have hcolon := getElem?_bytes_colon (written ++ gap) tail
    rw [byteSize_append, List.append_assoc] at hcolon
    split
    · rename_i hnone
      split
      · exact absurd (hcolon.mpr rfl) hnone
      · rfl
    · rename_i hsome
      cases tail with
      | nil => exact absurd (hcolon.mp (Decidable.not_not.mp hsome)) (by simp)
      | cons c rest =>
        obtain rfl : c = ':' := Option.some.inj (hcolon.mp (Decidable.not_not.mp hsome))
        have hsize : (':' : Char).utf8Size = 1 := rfl
        have hrest := cutFrom_append (written ++ (gap ++ [':'])) rest
        have htext := cutFrom_append (written ++ (gap ++ ':' :: rest.takeWhile isGap))
          (rest.drop (rest.takeWhile isGap).length)
        have hparts := takeWhile_append_drop (p := isGap) rest
        simp only [List.append_assoc, List.cons_append, List.nil_append, hparts, byteSize_append,
          byteSize, hsize, ← Nat.add_assoc, Nat.add_zero] at hrest htext
        simp only [hrest, htext, valueEnd_eq, byteSize_eq_zero_iff, Option.map_map]
        split
        · rfl
        · rfl

end Line

def blockCut (source : List Char) (e : Entry) : Except Span Bool :=
  match e.value with
  | none => .ok false
  | some v => (cut source v).map opensBlock

def extendCut (source line : List Char) (start : Nat) (e : Entry) : Except Span Entry := do
  let block ← blockCut source e
  return if block || (trimStart line).head? != some '#' then e.grow line start else e

def advanceCut (source : List Char) (start : Nat) (found : List Entry) (l : Line) :
    Except Span (List Entry) :=
  let line := scanned l
  if (trim line).isEmpty then .ok found
  else if line.head?.any isGap then
    match found with
    | [] => .ok []
    | e::es => do return (← extendCut source line start e) :: es
  else if isStructural line then .ok found
  else do
    match ← lineEntry line with
    | none => return found
    | some e => return e.shift start :: found

def scanCuts (source : List Char) : Nat → List Entry → List Line → Except Span (List Entry)
  | _, found, [] => .ok found.reverse
  | start, found, l::ls => do
    let found ← advanceCut source start found l
    scanCuts source (start + l.size) found ls

section Scan

variable {source before : List Char}

theorem extendCut_eq {e : Entry} (h : e.Fits source) (line : List Char) (start : Nat) :
    extendCut source line start e = .ok (extend source line start e) := by
  have hblock : blockCut source e = .ok (isBlockValue source e) := by
    unfold blockCut isBlockValue
    cases hvalue : e.value with
    | none => rfl
    | some v =>
      simp only [cut_fits (h.value v hvalue)]
      rfl
  rw [extendCut, hblock]
  rfl

theorem advanceCut_eq {found : List Entry} (h : ∀ e ∈ found, e.Fits source) (start : Nat)
    (l : Line) : advanceCut source start found l = .ok (advance source start found l) := by
  have hline : dropEndWhile (· == '\r') l.content = scanned l := rfl
  simp only [advanceCut, advance, hline]
  generalize scanned l = line
  split
  · rfl
  · split
    · cases found with
      | nil => rfl
      | cons e es =>
        simp only [extendCut_eq (h e List.mem_cons_self)]
        rfl
    · split
      · rfl
      · rw [lineEntry_eq]
        cases ofLine? line <;> rfl

/-- The values that are cut out of the source are those of entries that fit it. -/
theorem scanCuts_eq {found : List Entry} (ls : List Line)
    (hs : source = before ++ ls.flatMap Line.chars) (hf : Kept source (byteSize before) found) :
    scanCuts source (byteSize before) found ls =
      .ok (scanGo source (byteSize before) found ls) := by
  induction ls generalizing before found with
  | nil => rfl
  | cons l ls ih =>
    have hnext : byteSize before + l.size = byteSize (before ++ l.chars) := by
      rw [byteSize_append, l.byteSize_chars]
    have hkept := advance_kept l (List.flatMap_cons ▸ hs) hf
    rw [hnext] at hkept
    rw [scanCuts, advanceCut_eq fun e he => (hf e he).1, scanGo_cons, hnext]
    exact ih (by rw [hs]; simp) hkept

theorem scanCuts_lines (source : List Char) :
    scanCuts source 0 [] (lines source) = .ok (entries source) := by
  have hsource : source = [] ++ (lines source).flatMap Line.chars :=
    (flatMap_chars_lines source).symm
  exact scanCuts_eq (lines source) hsource (by simp [Kept])

end Scan

end SlideDirectives.Yaml.Entry
