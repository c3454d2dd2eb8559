import SlideDirectives.Proofs.Yaml.Page.Skip
import SlideDirectives.Proofs.Yaml.Page.Key
import SlideDirectives.Proofs.Yaml.Page.Mapping

/-!
# The tokens of a page

A field takes a step for its key, one for its colon and one for its value, as
in a sheet. A scalar that is all of a text is one token there, and the same
token behind a key.
-/

set_option autoImplicit false

namespace SlideDirectives.Yaml.Page

open Text Scanner

def Field.decoded (f : Field) : Yaml.Value × Yaml.Value :=
  (f.key.value, f.value.elim .null Scalar.value)

def Field.binding (f : Field) : Binding where
  key := f.key.chars
  value := f.value.map fun s => (s.text, s.style)
  found := f.decoded
  key_resolved := plainValue_key f.key
  value_resolved := by
    rw [Field.decoded]
    cases f.value with
    | none => rfl
    | some s => exact s.resolved

def Field.behindColon (newline : List Char) (f : Field) : List Char :=
  match f.value with
  | none => f.tail
  | some s => List.replicate (f.gap + 1) ' ' ++ (s.written newline ++ f.tail)

theorem Field.tail_later (f : Field) {s : Scalar} (hvalue : f.value = some s)
    (hlater : s.later ≠ []) : f.tail = [] := by
  obtain ⟨hspaces, hnote⟩ := f.closed (by simp [hvalue, hlater])
  simp [Field.tail, hspaces, hnote, noteChars]

theorem Field.chars_eq (newline : List Char) (f : Field) :
    f.chars newline = f.key.chars ++ ':' :: f.behindColon newline := by
  cases hvalue : f.value with
  | none => simp [Field.chars, Field.lines, Field.behindColon, hvalue, glued]
  | some s =>
    simp only [Field.chars, Field.lines, Field.behindColon, hvalue, Scalar.written, glued,
      Field.lead, List.append_assoc, List.cons_append]
    by_cases hlater : s.later = []
    · simp [hlater]
    · simp [f.tail_later hvalue hlater]

variable {opened allowed : Bool} {found : List Token} {c : Cursor} {after dest : List Char}

theorem leads_tail (allowed : Bool) (n : Nat) (note : Option Note) (h : Follows after dest)
    (m : Mark) : Leads allowed ⟨List.replicate n ' ' ++ (noteChars note ++ after), m⟩ dest := by
  obtain ⟨k, hnote⟩ := noteChars_eq note
  rw [hnote, ← List.append_assoc, List.replicate_append_replicate]
  exact leads_after allowed (n + k) note h m

theorem head_tail (n : Nat) (note : Option Note) (h : EndsLine after) :
    (List.replicate n ' ' ++ (noteChars note ++ after)).head? ≠ some '\x27' := by
  obtain ⟨k, hnote⟩ := noteChars_eq note
  rw [hnote, ← List.append_assoc, List.replicate_append_replicate]
  cases n + k with
  | succ n => simp [List.replicate_succ]
  | zero =>
    cases note with
    | some comment => simp [hashChars]
    | none => rcases h with rfl | ⟨rest, rfl⟩ <;> simp [hashChars]

/-- A value is one token, and what follows it leads to the next field. -/
theorem step?_spelled {raw text : List Char} {style : ScalarStyle} (h : Spelled raw text style)
    (hhangs : hangs raw = true) (hlast : ∀ c ∈ raw.getLast?, isSpacing c = false)
    (gap n : Nat) (note : Option Note) (hafter : Follows after dest) (m : Mark) :
    ∃ broken c,
      (between true found false ⟨List.replicate (gap + 1) ' ' ++ (raw ++
          (List.replicate n ' ' ++ (noteChars note ++ after))), m⟩).step? =
        some (between true (.scalar text style :: found) broken c) ∧
      Leads broken c dest := by
  obtain ⟨d, ds, hraw, hspacing, hhash, -⟩ := h.head
  obtain ⟨tail, htail⟩ : ∃ tail, tail =
    List.replicate n ' ' ++ (noteChars note ++ after) := ⟨_, rfl⟩
  rw [← htail]
  have hto : (between true found false
      ⟨List.replicate (gap + 1) ' ' ++ (raw ++ tail), m⟩).skipToToken =
      between true found false ⟨raw ++ tail, m.plus (gap + 1)⟩ := by
    have hspace : d ≠ ' ' := by
      rintro rfl
      cases hspacing
    have htab : d ≠ '\t' := by
      rintro rfl
      cases hspacing
    rw [hraw]
    exact skipToToken_eq rfl
      (skipGo_stop (gap + 1) hspace htab hhash (Bool.or_eq_false_iff.mp hspacing).2)
  rw [step?_eq hto (expireKeys?_none rfl rfl) (unroll_between _)]
  cases h with
  | @plain c cs text broken m₁ hopens hgo =>
    have hinside : Inside (m.plus (gap + 1)) (c::cs) := Or.inl (Nat.succ_pos _)
    obtain ⟨m₂, hplace⟩ := Plain.go_place hgo hhangs hlast hinside tail
    obtain ⟨broken', c', hbehind, hleads⟩ := @go_after after dest m₂ text.reverse n note hafter
    refine ⟨broken', c', ?_, hleads⟩
    rw [htail, if_neg (List.cons_ne_nil c cs), hbehind, List.reverse_reverse, ← htail] at hplace
    rw [token?_plain rfl hopens rfl (fun hcolumn => by cases hcolumn), plain?]
    simp only [blockContext] at hplace
    simp only [saveKey?, between, Bool.false_eq_true, if_false, Option.bind_eq_bind,
      Option.bind_some, inFlow, List.isEmpty_nil, Bool.not_true, if_true, Plain.scan?]
    rw [show (0 : Int) + 1 = 1 from rfl, hplace]
    rfl
  | @quoted q cs text m₁ hgo =>
    have hdoubles : ¬ Quoted.Doubles q tail := by
      rw [htail]
      exact fun hdouble => head_tail n note hafter.endsLine hdouble.2
    obtain ⟨m₂, hplace⟩ := Quoted.go_place hgo (hangs_cons hhangs).1
      (inside_next (m.plus (gap + 1)) cs) hdoubles
    refine ⟨false, ⟨tail, m₂⟩, ?_, ?_⟩
    · rw [token?_quote q rfl, quoted?]
      simp only [saveKey?, between, Bool.false_eq_true, if_false, Option.bind_eq_bind,
        Option.bind_some, Quoted.scan?, List.cons_append, List.tail_cons, hplace]
      cases q <;> rfl
    · rw [htail]
      exact leads_tail false n note hafter m₂

theorem scans_spelled {raw text : List Char} {style : ScalarStyle} (h : Spelled raw text style)
    (hhangs : hangs raw = true) (hlast : ∀ c ∈ raw.getLast?, isSpacing c = false)
    (gap spaces : Nat) (note : Option Note) (hafter : Follows after dest) {n : Nat} {ts : List Token}
    (hrest : ∀ found allowed c, Leads allowed c dest →
      Scans (between true found allowed c) n (found.reverse ++ ts)) (m : Mark) :
    Scans (between true found false ⟨List.replicate (gap + 1) ' ' ++ (raw ++
        (List.replicate spaces ' ' ++ (noteChars note ++ after))), m⟩) (n + 1)
      (found.reverse ++ (.scalar text style :: ts)) := by
  obtain ⟨broken, c, hstep, hleads⟩ := @step?_spelled found after dest raw text style h hhangs hlast
    gap spaces note hafter m
  have hscans := hrest (.scalar text style :: found) broken c hleads
  rw [List.reverse_cons, List.append_assoc] at hscans
  exact Scans.step (expireKeys?_none rfl rfl) hstep (by simp [between]) hscans

theorem atSpacing_behindColon (f : Field) (h : EndsLine after) :
    atSpacing (f.behindColon ['\n'] ++ after) = true := by
  cases hvalue : f.value with
  | some s => simp [Field.behindColon, hvalue, List.replicate_succ, atSpacing, isSpacing, isGap]
  | none =>
    simp only [Field.behindColon, hvalue, Field.tail, List.append_assoc]
    cases f.spaces with
    | succ n => rfl
    | zero =>
      cases f.note with
      | some comment => rfl
      | none => rcases h with rfl | ⟨rest, rfl⟩ <;> rfl

theorem scans_value {n : Nat} {ts : List Token} (f : Field) (hafter : Follows after dest) (m : Mark)
    (h : ∀ found allowed c, Leads allowed c dest →
      Scans (between true found allowed c) n (found.reverse ++ ts)) :
    Scans (between true found false ⟨f.behindColon ['\n'] ++ after, m⟩)
      (n + (f.behindColon ['\n']).length) (found.reverse ++ (f.binding.valueTokens ++ ts)) := by
  cases hvalue : f.value with
  | none =>
    have hleads := leads_tail false f.spaces f.note hafter m
    rw [← List.append_assoc] at hleads
    simp only [Field.behindColon, Field.binding, Binding.valueTokens, hvalue]
    exact (h found false _ hleads).mono (Nat.le_add_right _ _)
  | some s =>
    have hscans := @scans_spelled found after dest _ _ _ s.spelled_written s.hangs_written
      (isSpacing_last s.last_written) f.gap f.spaces f.note hafter n ts h m
    simp only [Field.behindColon, Field.binding, Binding.valueTokens, hvalue, Field.tail,
      List.append_assoc]
    refine hscans.mono ?_
    simp only [List.length_append, List.length_replicate]
    omega

theorem scans_leads {rest : List Char} {n : Nat} {ts : List Token} (k : Key)
    (hrest : atSpacing rest = true)
    (h : ∀ found m, Scans (between true found false ⟨rest, m⟩) n (found.reverse ++ ts))
    (hleads : Leads allowed c (k.chars ++ ':' :: rest)) :
    Scans (between opened found allowed c) (n + 2) (found.reverse ++
      (openTokens opened ++ (.key :: .scalar k.chars .plain :: .value :: ts))) := by
  obtain ⟨hmark, hskips⟩ := hleads
  obtain ⟨a, m, hskip, hplace⟩ := hskips (c.rest.length + 1) (Nat.lt_succ_self _)
  obtain ⟨rfl, hm⟩ := hplace (by simp)
  exact scans_key k hmark hskip hm hrest h

theorem scans_field {n : Nat} {ts : List Token} (f : Field) (hafter : Follows after dest)
    (h : ∀ found allowed c, Leads allowed c dest →
      Scans (between true found allowed c) n (found.reverse ++ ts))
    (hleads : Leads allowed c (f.chars ['\n'] ++ after)) :
    Scans (between opened found allowed c) (n + (f.chars ['\n']).length)
      (found.reverse ++ (openTokens opened ++ (f.binding.tokens ++ ts))) := by
  rw [f.chars_eq, List.append_assoc, List.cons_append] at hleads
  refine (scans_leads f.key (atSpacing_behindColon f hafter.endsLine)
    (fun found m => scans_value f hafter m h) hleads).mono ?_
  obtain ⟨d, ds, hcs, -⟩ := isKey_cons f.key.wellFormed
  have hkeylength : 0 < f.key.chars.length := by
    rw [hcs]
    exact Nat.succ_pos _
  rw [f.chars_eq]
  simp only [List.length_append, List.length_cons]
  omega

/-- The scanner finds the tokens of the fields, in order. -/
theorem scans_joined (rows : List Row) {opened allowed : Bool} {found : List Token} {c : Cursor}
    (h : Leads allowed c (target rows)) :
    Scans (between opened found allowed c) (joined ['\n'] rows).length (found.reverse ++
      mappingTokens opened ((rows.filterMap Row.field?).map Field.binding)) := by
  induction rows generalizing opened allowed found c with
  | nil =>
    obtain ⟨hmark, hskips⟩ := h
    obtain ⟨a, m, hskip, -⟩ := hskips (c.rest.length + 1) (Nat.lt_succ_self _)
    exact scans_close hmark hskip
  | cons r rows ih =>
    have hbehind := length_behind rows
    cases r with
    | fill n note =>
      apply (ih h).mono
      rw [joined_fill, List.length_append, List.length_append]
      omega
    | field f =>
      rw [target_field] at h
      apply (scans_field f (follows_behind rows) (fun _ _ _ hleads => ih hleads) h).mono
      rw [joined_field, List.length_append]
      omega

theorem isPrintable_of_isInline {c : Char} (h : isInline c = true) : isPrintable c = true :=
  (Bool.and_eq_true_iff.mp h).1

theorem all_isPrintable {ls : List (List Char)} (h : ∀ l ∈ ls, l.all isInline = true) :
    (glued ['\n'] ls).all isPrintable = true := by
  apply all_glued (by decide)
  intro l hl
  rw [List.all_eq_true]
  exact fun c hc => isPrintable_of_isInline (List.all_eq_true.mp (h l hl) c hc)

theorem ofText_joined (rows : List Row) : TokenStream.ofText (joined ['\n'] rows) =
    ⟨mappingTokens false ((rows.filterMap Row.field?).map Field.binding), false⟩ := by
  have hprintable : (joined ['\n'] rows).all isPrintable = true :=
    all_isPrintable (rows_inline rows)
  rw [TokenStream.ofText, if_pos hprintable]
  exact @scans_joined rows false true [] _ (leads_clears (clears_joined rows) Mark.start rfl) _ _
    (Nat.lt_succ_self _)

section Alone

/-- The state behind a scalar that is all of a text, where it might still be a key. -/
def behindAll (t : Token) (allowed : Bool) (key : Option KeyStart) (m : Mark) : Scanner :=
  ⟨⟨[], m⟩, [t], -1, [], allowed, key, []⟩

def firstKey : KeyStart := ⟨0, Mark.start, false⟩

theorem expireKeys?_behindAll (t : Token) (allowed : Bool) {key : Option KeyStart}
    (h : key = none ∨ key = some firstKey) (m : Mark) :
    ∃ key', (key' = none ∨ key' = some firstKey) ∧
      (behindAll t allowed key m).expireKeys? = some (behindAll t allowed key' m) := by
  rcases h with rfl | rfl
  · exact ⟨none, Or.inl rfl, rfl⟩
  · by_cases hexpires : expires m firstKey = true
    · have hexpire : expire? m (some firstKey) = some none := by
        rw [expire?, if_pos hexpires]
        rfl
      refine ⟨none, Or.inl rfl, ?_⟩
      simp only [behindAll, expireKeys?, hexpire]
      rfl
    · have hexpire : expire? m (some firstKey) = some (some firstKey) := by
        rw [expire?, if_neg hexpires]
      refine ⟨some firstKey, Or.inr rfl, ?_⟩
      simp only [behindAll, expireKeys?, hexpire]
      rfl

theorem scans_behindAll (t : Token) (allowed : Bool) (m : Mark) :
    Scans (behindAll t allowed (some firstKey) m) 0 [t, .streamEnd] := by
  intro fuel known hfuel
  cases fuel with
  | zero => cases hfuel
  | succ fuel =>
    obtain ⟨key, hkey, hexpire⟩ := expireKeys?_behindAll t allowed (Or.inr rfl) m
    obtain ⟨key', hkey', hexpire'⟩ := expireKeys?_behindAll t allowed hkey m
    have hto : (behindAll t allowed key m).skipToToken = behindAll t allowed key m :=
      skipToToken_eq rfl rfl
    have hstep : (behindAll t allowed key m).step? =
        some { behindAll t false none m with found := [.streamEnd, t] } := by
      rw [step?, hto, hexpire']
      rcases hkey' with rfl | rfl <;> rfl
    rw [TokenStream.scanGo, hexpire]
    simp only [hstep]
    rfl

/-- A scalar that is all of a text is its only token. -/
theorem ofText_spelled {raw text : List Char} {style : ScalarStyle} (h : Spelled raw text style)
    (hprintable : raw.all isPrintable = true) :
    TokenStream.ofText raw = ⟨[.scalar text style, .streamEnd], false⟩ := by
  obtain ⟨d, ds, hraw, hspacing, hhash, -, -, hmark⟩ := h.head
  have hto : (between false [] true ⟨raw, Mark.start⟩).skipToToken =
      between false [] true ⟨raw, Mark.start⟩ := by
    have hspace : d ≠ ' ' := by
      rintro rfl
      cases hspacing
    have htab : d ≠ '\t' := by
      rintro rfl
      cases hspacing
    rw [hraw]
    exact skipToToken_eq (beq_eq_false_iff_ne.mpr hmark)
      (skipGo_stop 0 hspace htab hhash (Bool.or_eq_false_iff.mp hspacing).2)
  have hstep : ∃ broken m, (between false [] true ⟨raw, Mark.start⟩).step? =
      some (behindAll (.scalar text style) broken (some firstKey) m) := by
    rw [step?_eq hto (expireKeys?_none rfl rfl) (unroll_between _)]
    cases h with
    | @plain c cs text broken m hopens hgo =>
      refine ⟨broken, m, ?_⟩
      rw [token?_plain (List.append_nil _).symm hopens rfl (fun _ => rfl), plain?]
      simp only [blockContext] at hgo
      simp only [saveKey?, between, if_true, dropKey?, Option.bind_eq_bind, Option.bind_some, inFlow,
        List.isEmpty_nil, Bool.not_true, Bool.false_eq_true, if_false, Plain.scan?]
      rw [show (-1 : Int) + 1 = 0 from rfl, hgo]
      rfl
    | @quoted q cs text m hgo =>
      refine ⟨false, m, ?_⟩
      rw [token?_quote q rfl, quoted?]
      simp only [saveKey?, between, if_true, dropKey?, Option.bind_eq_bind, Option.bind_some,
        Quoted.scan?, List.tail_cons, hgo]
      cases q <;> rfl
  obtain ⟨broken, m, hstep⟩ := hstep
  have hscans := Scans.step (expireKeys?_none rfl rfl) hstep (by simp [behindAll])
    (scans_behindAll (.scalar text style) broken m)
  rw [TokenStream.ofText, if_pos hprintable]
  apply hscans
  rw [hraw, List.length_cons]
  omega

end Alone

end SlideDirectives.Yaml.Page
