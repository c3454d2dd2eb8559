import SlideDirectives.Proofs.Yaml.Page.Line

/-!
# Steps of the scanner on a page

Between two fields the scanner is in a state that depends on the fields before
only by the tokens found and by whether there were any. From such a state a
field takes a step for its key and one for its colon.
-/

set_option autoImplicit false

namespace SlideDirectives.Yaml.Page

open Scanner

/-- The scanner goes on to find exactly the given tokens, if it may take more
than `n` steps. -/
def Scans (s : Scanner) (n : Nat) (tokens : List Token) : Prop :=
  ∀ fuel known, n < fuel → TokenStream.scanGo fuel known s = ⟨tokens, false⟩

variable {s s' next : Scanner} {ts : List Token}

theorem Scans.mono {m n : Nat} (h : Scans s m ts) (hmn : m ≤ n) : Scans s n ts :=
  fun fuel known hfuel => h fuel known (Nat.lt_of_le_of_lt hmn hfuel)

theorem Scans.step {n : Nat} (hkeys : s.expireKeys? = some s) (hstep : s.step? = some next)
    (hnext : next.found.head? ≠ some .streamEnd) (h : Scans next n ts) :
    Scans s (n + 1) ts := by
  intro fuel known hfuel
  cases fuel with
  | zero => cases hfuel
  | succ fuel =>
    rw [TokenStream.scanGo, hkeys]
    simp only [hstep, if_neg hnext]
    exact h fuel _ (by omega)

theorem Scans.last (hkeys : s.expireKeys? = some s) (hstep : s.step? = some next)
    (hnext : next.found.head? = some .streamEnd) : Scans s 0 next.found.reverse := by
  intro fuel known hfuel
  cases fuel with
  | zero => cases hfuel
  | succ fuel =>
    rw [TokenStream.scanGo, hkeys]
    simp only [hstep, if_pos hnext]

theorem expireKeys?_none (hkey : s.key = none) (houter : s.outerKeys = []) :
    s.expireKeys? = some s := by
  obtain ⟨cursor, found, indent, outer, keyAllowed, key, outerKeys⟩ := s
  subst hkey houter
  rfl

/-- A key on the line of the cursor stays a candidate for 1024 characters. -/
theorem expireKeys?_some {k : KeyStart} (hkey : s.key = some k) (houter : s.outerKeys = [])
    (hline : s.cursor.mark.line = k.mark.line)
    (hindex : s.cursor.mark.index ≤ k.mark.index + 1024) : s.expireKeys? = some s := by
  obtain ⟨cursor, found, indent, outer, keyAllowed, key, outerKeys⟩ := s
  subst hkey houter
  have hexpires : expires cursor.mark k = false := by
    simp only [expires, Bool.or_eq_false_iff, decide_eq_false_iff_not]
    simp only at hline hindex
    omega
  simp [Scanner.expireKeys?, expire?, hexpires]

theorem skipToToken_eq {allowed : Bool} {c : Cursor}
    (hmark : startsWith (· == byteOrderMark) s.cursor.rest = false)
    (hskip : skipGo s.inFlow (s.cursor.rest.length + 1) s.keyAllowed s.cursor = (allowed, c)) :
    s.skipToToken = { s with keyAllowed := allowed, cursor := c } := by
  have hcursor : (if s.cursor.mark.index == 0 && startsWith (· == byteOrderMark) s.cursor.rest
      then s.cursor.skip else s.cursor) = s.cursor := by
    rw [hmark, Bool.and_false]
    rfl
  simp only [skipToToken, hcursor, hskip]

theorem step?_eq (hskip : s.skipToToken = s') (hkeys : s'.expireKeys? = some s')
    (hunroll : s'.unroll s'.cursor.mark.column = s') : s.step? = s'.token? := by
  rw [step?, hskip, hkeys]
  simp only [Option.bind_eq_bind, Option.bind_some, hunroll]

/-- The token of a plain scalar, unless its place makes it the mark of a document. -/
theorem token?_plain {c : Char} {cs tail : List Char} (hrest : s.cursor.rest = c::cs ++ tail)
    (hopens : opensPlain (c::cs) = true) (hflow : s.inFlow = false)
    (hplace : s.cursor.mark.column = 0 → tail = []) : s.token? = s.plain? := by
  obtain ⟨hc, hmarker, -⟩ := opensPlain_cons hopens
  have hthrice : ∀ d, (isThrice d (c::cs) = false) →
      (s.cursor.mark.column == 0 && isThrice d (c::(cs ++ tail))) = false := by
    intro d hd
    by_cases hcolumn : s.cursor.mark.column = 0
    · rw [hplace hcolumn, List.append_nil, hd, Bool.and_false]
    · rw [beq_eq_false_iff_ne.mpr hcolumn, Bool.false_and]
  obtain ⟨hdash, hdot⟩ := Bool.or_eq_false_iff.mp hmarker
  have hcs : s.cursor.rest = c::(cs ++ tail) := hrest
  rcases hc with ⟨hspacing, hindicator⟩ | ⟨hsign, hspacing⟩
  · have hne : ∀ d, isIndicator d = true → (c == d) = false := by
      intro d hd
      rw [beq_eq_false_iff_ne]
      rintro rfl
      rw [hindicator] at hd
      cases hd
    have hplain : startsPlain s.inFlow (c::(cs ++ tail)) = true := by
      rw [startsPlain, hspacing, hindicator]
      rfl
    simp (disch := decide) only [token?, hcs, hne, hthrice _ hdash, hthrice _ hdot, hplain,
      Bool.and_false, Bool.false_and, Bool.false_eq_true, if_false, if_true]
  · have hafter : atSpacing (cs ++ tail) = false := by
      cases cs with
      | nil => cases hspacing
      | cons d cs => exact hspacing
    have hgap : startsWith Text.isGap (cs ++ tail) = false := by
      cases cs with
      | nil => cases hspacing
      | cons d cs => exact (Bool.or_eq_false_iff.mp hspacing).1
    have hplain : startsPlain false (c::(cs ++ tail)) = true := by
      rcases hsign with rfl | rfl | rfl <;> simp [startsPlain, hafter, hgap]
    simp only [token?, hcs, hthrice _ hdash, hthrice _ hdot, hflow, hafter, hplain]
    rcases hsign with rfl | rfl | rfl <;> simp

theorem token?_quote (q : Quoted.Quote) {cs : List Char} (hrest : s.cursor.rest = q.char :: cs) :
    s.token? = s.quoted? q := by
  simp only [token?, hrest]
  cases q with
  | single =>
    simp [Quoted.Quote.char, isThrice_of_ne cs (c := '\x27') (d := '-') (by decide),
      isThrice_of_ne cs (c := '\x27') (d := '.') (by decide)]
  | double =>
    simp [Quoted.Quote.char, isThrice_of_ne cs (c := '\x22') (d := '-') (by decide),
      isThrice_of_ne cs (c := '\x22') (d := '.') (by decide)]

theorem token?_keyStart {c : Char} {cs : List Char} (hrest : s.cursor.rest = c::cs)
    (h : isKeyStart c = true) (hflow : s.inFlow = false) : s.token? = s.plain? := by
  have hopens := opensPlain_word (isWord_of_isKeyStart h) (ne_of_eq h rfl) (ne_of_eq h rfl) cs
  have hcs : s.cursor.rest = c::cs ++ [] := by rw [hrest, List.append_nil]
  exact token?_plain hcs hopens hflow fun _ => rfl

theorem token?_colon {cs : List Char} (hrest : s.cursor.rest = ':' :: cs)
    (h : atSpacing cs = true) : s.token? = s.value? := by
  simp only [token?, hrest]
  simp [isThrice_of_ne cs (c := ':') (d := '-') (by decide),
    isThrice_of_ne cs (c := ':') (d := '.') (by decide), h]

def between (opened : Bool) (found : List Token) (allowed : Bool) (c : Cursor) : Scanner :=
  ⟨c, found, if opened then 0 else -1, if opened then [-1] else [], allowed, none, []⟩

/-- The state behind a token that started at `m` and may be a key. -/
def behindKey (opened : Bool) (k : Token) (found : List Token) (m : Mark) (c : Cursor) : Scanner :=
  ⟨c, k :: found, if opened then 0 else -1, if opened then [-1] else [], false,
    some ⟨found.length, m, opened⟩, []⟩

def openTokens (opened : Bool) : List Token :=
  if opened then [] else [.blockMappingStart]

def closeTokens (opened : Bool) : List Token :=
  if opened then [.blockEnd, .streamEnd] else [.streamEnd]

variable {opened allowed : Bool} {found : List Token} {c : Cursor}

theorem unroll_between (column : Nat) :
    (between opened found allowed c).unroll column = between opened found allowed c := by
  cases opened
  · rfl
  · have hcolumn : ¬ (column : Int) < 0 := by omega
    simp [Scanner.unroll, between, unrollGo, inFlow, hcolumn]

theorem unroll_behindKey (k : Token) (column : Nat) (m : Mark) :
    (behindKey opened k found m c).unroll column = behindKey opened k found m c := by
  cases opened
  · rfl
  · have hcolumn : ¬ (column : Int) < 0 := by omega
    simp [Scanner.unroll, behindKey, unrollGo, inFlow, hcolumn]

theorem endStream_between :
    ∃ next, endStream? (between opened found allowed c) = some next ∧
      next.found.reverse = found.reverse ++ closeTokens opened ∧
      next.found.head? = some .streamEnd := by
  cases opened
  · exact ⟨_, rfl, by simp [between, Scanner.unroll, unrollGo, inFlow, emit, allowKey, closeTokens],
      rfl⟩
  · exact ⟨_, rfl, by simp [between, Scanner.unroll, unrollGo, inFlow, emit, allowKey, closeTokens],
      rfl⟩

theorem scans_close {a : Bool} {m : Mark} (hmark : startsWith (· == byteOrderMark) c.rest = false)
    (hskip : skipGo false (c.rest.length + 1) allowed c = (a, ⟨[], m⟩)) :
    Scans (between opened found allowed c) 0 (found.reverse ++ closeTokens opened) := by
  have hto : (between opened found allowed c).skipToToken = between opened found a ⟨[], m⟩ :=
    skipToToken_eq hmark hskip
  obtain ⟨next, hend, hfound, hhead⟩ := @endStream_between opened a found ⟨[], m⟩
  have hstep : (between opened found allowed c).step? = some next := by
    rw [step?_eq hto (expireKeys?_none rfl rfl) (unroll_between m.column)]
    exact hend
  rw [← hfound]
  exact Scans.last (expireKeys?_none rfl rfl) hstep hhead

theorem plain?_key {ks rest : List Char} {m : Mark} (hall : ks.all isWord = true)
    (hrest : ∀ acc indent, Plain.go (blockContext indent) (m.plus ks.length) acc Gap.none rest =
      some ⟨acc.reverse, false, ⟨rest, m.plus ks.length⟩⟩) (hm : m.column = 0) :
    plain? (between opened found true ⟨ks ++ rest, m⟩) =
      some (behindKey opened (.scalar ks .plain) found m ⟨rest, m.plus ks.length⟩) := by
  have hscan : ∀ indent, Plain.scan? (blockContext indent) ⟨ks ++ rest, m⟩ =
      some ⟨ks, false, ⟨rest, m.plus ks.length⟩⟩ := by
    intro indent
    rw [Plain.scan?]
    simp only [go_words hall, hrest, List.append_nil, List.reverse_reverse]
  have hsave : saveKey? (between opened found true ⟨ks ++ rest, m⟩) =
      some { between opened found true ⟨ks ++ rest, m⟩ with
        key := some ⟨found.length, m, opened⟩ } := by
    obtain ⟨index, line, column⟩ := m
    subst hm
    cases opened <;> rfl
  rw [plain?, hsave]
  simp only [Option.bind_eq_bind, Option.bind_some]
  have hresult := hscan ((if opened then 0 else -1) + 1)
  simp only [blockContext] at hresult
  simp only [between, inFlow, List.isEmpty_nil, Bool.not_true, hresult]
  rfl

theorem step?_key (k : Key) {rest : List Char} {m : Mark}
    (hmark : startsWith (· == byteOrderMark) c.rest = false)
    (hskip : skipGo false (c.rest.length + 1) allowed c = (true, ⟨k.chars ++ ':' :: rest, m⟩))
    (hm : m.column = 0) (hrest : atSpacing rest = true) :
    (between opened found allowed c).step? =
      some (behindKey opened (.scalar k.chars .plain) found m
        ⟨':' :: rest, m.plus k.chars.length⟩) := by
  obtain ⟨d, ds, hcs, hstart, hall⟩ := isKey_cons k.wellFormed
  have hto : (between opened found allowed c).skipToToken =
      between opened found true ⟨k.chars ++ ':' :: rest, m⟩ := skipToToken_eq hmark hskip
  have htoken : (between opened found true ⟨k.chars ++ ':' :: rest, m⟩).token? =
      (between opened found true ⟨k.chars ++ ':' :: rest, m⟩).plain? := by
    rw [hcs]
    exact token?_keyStart rfl hstart rfl
  rw [step?_eq hto (expireKeys?_none rfl rfl) (unroll_between m.column), htoken]
  exact plain?_key hall (fun _ indent => go_colon hrest indent) hm

theorem insertAt_append {xs ys : List Token} (h : s.found = xs ++ ys) (t : Token) :
    s.insertAt ys.length t = { s with found := xs ++ t :: ys } := by
  simp [insertAt, h]

/-- The colon behind a key puts the key and, for the first one, the start of
the mapping before it. -/
theorem value?_key (k : Token) {tail : List Char} {m m' : Mark} (hm : m.column = 0) :
    value? (behindKey opened k found m ⟨':' :: tail, m'⟩) =
      some (between true (.value :: k :: .key :: (openTokens opened ++ found)) false
        ⟨tail, m'.next⟩) := by
  have hkey := @insertAt_append (behindKey opened k found m ⟨':' :: tail, m'⟩) [k] found rfl .key
  cases opened
  · have hstart := @insertAt_append
      { behindKey false k found m ⟨':' :: tail, m'⟩ with
        found := k :: .key :: found, indent := 0, outer := [-1] } [k, .key] found rfl
      .blockMappingStart
    rw [value?]
    simp only [behindKey, Bool.false_eq_true, if_false] at hkey hstart ⊢
    rw [hkey]
    simp only [roll, inFlow, List.isEmpty_nil, Bool.not_true, Bool.not_false, hm]
    rw [if_pos (by decide)]
    simp only [List.cons_append, List.nil_append]
    rw [show ((0 : Nat) : Int) = 0 from rfl, hstart]
    rfl
  · rw [value?]
    simp only [behindKey, if_true] at hkey ⊢
    rw [hkey]
    simp only [roll, hm]
    rw [if_neg (by simp)]
    rfl

theorem expireKeys?_behindKey (k : Token) {rest : List Char} {n : Nat} (hn : n ≤ 1024) (m : Mark) :
    (behindKey opened k found m ⟨rest, m.plus n⟩).expireKeys? =
      some (behindKey opened k found m ⟨rest, m.plus n⟩) := by
  apply expireKeys?_some rfl rfl rfl
  simp only [behindKey, Mark.plus]
  omega

theorem step?_colon (k : Token) {tail : List Char} {m : Mark} {n : Nat} (hn : n ≤ 1024)
    (hm : m.column = 0) (htail : atSpacing tail = true) :
    (behindKey opened k found m ⟨':' :: tail, m.plus n⟩).step? =
      some (between true (.value :: k :: .key :: (openTokens opened ++ found)) false
        ⟨tail, (m.plus n).next⟩) := by
  have hto : (behindKey opened k found m ⟨':' :: tail, m.plus n⟩).skipToToken =
      behindKey opened k found m ⟨':' :: tail, m.plus n⟩ :=
    skipToToken_eq rfl (skipGo_stop 0 (by decide) (by decide) (by decide) (by decide))
  rw [step?_eq hto (expireKeys?_behindKey k hn m) (unroll_behindKey k _ m), token?_colon rfl htail,
    value?_key k hm]

theorem length_le_byteSize (cs : List Char) : cs.length ≤ Text.byteSize cs := by
  induction cs with
  | nil => exact Nat.le_refl _
  | cons c cs ih =>
    have hc := c.utf8Size_pos
    simp only [List.length_cons, Text.byteSize]
    omega

theorem Key.length_le (k : Key) : k.chars.length ≤ 1024 := by
  have hbytes := length_le_byteSize k.chars
  have hshort := k.short
  omega

theorem scans_key (k : Key) {rest : List Char} {m : Mark} {n : Nat}
    (hmark : startsWith (· == byteOrderMark) c.rest = false)
    (hskip : skipGo false (c.rest.length + 1) allowed c = (true, ⟨k.chars ++ ':' :: rest, m⟩))
    (hm : m.column = 0) (hrest : atSpacing rest = true)
    (h : ∀ found m, Scans (between true found false ⟨rest, m⟩) n (found.reverse ++ ts)) :
    Scans (between opened found allowed c) (n + 2) (found.reverse ++
      (openTokens opened ++ (.key :: .scalar k.chars .plain :: .value :: ts))) := by
  have hkey := @step?_key opened allowed found c k rest m hmark hskip hm hrest
  have hkeys := @expireKeys?_behindKey opened found (.scalar k.chars .plain) (':' :: rest) _
    k.length_le m
  have hcolon := @step?_colon opened found (.scalar k.chars .plain) _ m _ k.length_le hm hrest
  have hvalue := h (.value :: .scalar k.chars .plain :: .key :: (openTokens opened ++ found))
    (m.plus k.chars.length).next
  have hsteps := Scans.step (expireKeys?_none rfl rfl) hkey (by simp [behindKey])
    (Scans.step hkeys hcolon (by simp [between]) hvalue)
  cases opened <;> simpa [openTokens] using hsteps

end SlideDirectives.Yaml.Page
