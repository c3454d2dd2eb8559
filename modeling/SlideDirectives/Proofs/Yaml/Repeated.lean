import Mathlib.Control.Monad.Basic
import Mathlib.Data.List.Pairwise
import SlideDirectives.Deck.Pass
import SlideDirectives.Proofs.Yaml.Alone
import SlideDirectives.Proofs.Yaml.Blank
import SlideDirectives.Proofs.Yaml.Distinct
import SlideDirectives.Proofs.Yaml.Rename

/-!
# Repeated keys

A text that repeats a key is read entry by entry. If the repetition comes from
a key that was overwritten by a name of its size, the entries are those that the
text had before, and all but the renamed one are read as they were.
-/

set_option autoImplicit false

namespace SlideDirectives.Yaml.Outline

open Text Entry

variable {decode : Decoder} {source source' : List Char}

section Places

theorem nodup_keys (source : List Char) : ((entries source).map Entry.key).Nodup := by
  rw [List.Nodup, List.pairwise_map]
  refine (entries_ordered source).1.imp ?_
  intro d e hlies heq
  have hlt := hlies.key_lt
  have hstop := Nat.lt_of_le_of_lt hlies.key_le hlies.stop_lt
  rw [← heq] at hstop
  omega

theorem lies_or_lies {d e : Entry} (hd : d ∈ entries source) (he : e ∈ entries source)
    (hne : d ≠ e) : d.Lies e.key.start ∨ e.Lies d.key.start := by
  let Apart (a b : Entry) : Prop := a.Lies b.key.start ∨ b.Lies a.key.start
  have hordered : (entries source).Pairwise Apart := (entries_ordered source).1.imp Or.inl
  have : Std.Symm Apart := ⟨fun _ _ => Or.symm⟩
  exact hordered.forall hd he hne

structure Kept (source source' : List Char) (e : Entry) : Prop where
  line : slice source' ⟨e.key.start, e.stop⟩ = slice source ⟨e.key.start, e.stop⟩
  key : slice source' e.key = slice source e.key
  value : ∀ v, e.value = some v → slice source' v = slice source v

theorem locate_kept {e : Entry} (h : Kept source source' e) (found : List (Value × Value)) :
    locate decode source' [e] found = locate decode source [e] found := by
  have hvalue : ∀ v : Value, e.value.map (fun s => (⟨valueText (slice source' s) v, s⟩ : Item)) =
      e.value.map (fun s => ⟨valueText (slice source s) v, s⟩) := by
    intro v
    cases hspan : e.value with
    | none => rfl
    | some s => rw [Option.map_some, Option.map_some, h.value s hspan]
  simp only [locate, h.key, hvalue]

theorem alone?_kept {e : Entry} (h : Kept source source' e) :
    alone? decode source' e = alone? decode source e := by
  rw [alone?, alone?, h.line]
  cases decode (clean (slice source ⟨e.key.start, e.stop⟩)) with
  | error fault => rfl
  | ok v =>
    cases v with
    | mapping found => exact congrArg some (locate_kept h found)
    | _ => rfl

theorem slice_overwrite {e : Entry} {name : List Char} (he : e ∈ entries source)
    (hsize : byteSize name = e.key.size) (s : Span)
    (hs : s.stop ≤ e.key.start ∨ e.key.stop ≤ s.start) :
    slice (overwrite source e.key name) s = slice source s := by
  have hname : byteSize name = byteSize (slice source e.key) := by
    have hstop := (entries_fit source e he).key.start_add_byteSize
    rw [hsize, Span.size]
    omega
  exact (entries_fit source e he).key.holds.slice_overwrite hname hs

theorem kept_overwrite {d e : Entry} {name : List Char} (hd : d ∈ entries source)
    (he : e ∈ entries source) (hne : d ≠ e) (hsize : byteSize name = e.key.size) :
    Kept source (overwrite source e.key name) d := by
  have hother := slice_overwrite he hsize
  rcases lies_or_lies hd he hne with hbefore | hbehind
  · constructor
    · exact hother _ (Or.inl (Nat.le_of_lt hbefore.stop_lt))
    · exact hother _ (Or.inl (Nat.le_trans hbefore.key_le (Nat.le_of_lt hbefore.stop_lt)))
    · exact fun v hv => hother v (Or.inl (Nat.le_of_lt (hbefore.value_lt v hv)))
  · have hstart := Nat.le_trans hbehind.key_le (Nat.le_of_lt hbehind.stop_lt)
    have hlies := (entries_ordered source).2 d hd
    constructor
    · exact hother _ (Or.inr hstart)
    · exact hother _ (Or.inr hstart)
    · intro v hv
      have hvalue := hlies.apart v hv
      have hkey := hlies.key_lt
      exact hother v (Or.inr (by omega))

end Places

section Rename

/-- The pairs with the text of one key, told by its span, replaced. -/
def rename (key : Span) (name : List Char) (ps : List Pair) : List Pair :=
  ps.map fun p => if p.key.span = key then { p with key := ⟨name, key⟩ } else p

variable {key : Span} {name : List Char} {ps : List Pair}

theorem span_rename : (rename key name ps).map (·.key.span) = ps.map (·.key.span) := by
  rw [rename, List.map_map]
  apply List.map_congr_left
  intro p _
  simp only [Function.comp_apply]
  split
  · exact (‹p.key.span = key›).symm
  · rfl

theorem under_rename {other : Span} (h : other ≠ key) :
    under other (rename key name ps) = under other ps := by
  induction ps with
  | nil => rfl
  | cons p ps ih =>
    rw [rename, List.map_cons, under_cons, under_cons]
    change (if _ then _ :: under other (rename key name ps) else under other (rename key name ps)) = _
    rw [ih]
    by_cases hp : p.key.span = key
    · rw [if_pos hp, hp, if_neg (Ne.symm h), if_neg (Ne.symm h)]
    · rw [if_neg hp]

theorem locate_sublist (decode : Decoder) (source : List Char) (es : List Entry)
    (found : List (Value × Value)) :
    ((locate decode source es found).map (·.key.span)).Sublist (es.map Entry.key) := by
  induction es generalizing found with
  | nil => exact List.Sublist.refl _
  | cons e es ih =>
    rw [locate]
    split
    · exact (ih found).cons e.key
    · exact (ih _).cons_cons e.key

theorem ofValue_eq_mapping : {v : Value} → ofValue decode source v = .mapping ps →
    ∃ found, ps = locate decode source (entries source) found
  | .tagged _ v, h => by
    rw [ofValue] at h
    exact ofValue_eq_mapping (v := v) h
  | .mapping found, h => by
    rw [ofValue] at h
    exact ⟨found, (Outline.mapping.inj h).symm⟩

/-- The pairs of a whole text stand in the order of its entries. -/
theorem read_sublist {v : Value} (h : Yaml.decode (clean source) = .ok v)
    (hps : read source = .mapping ps) :
    (ps.map (·.key.span)).Sublist ((entries source).map Entry.key) := by
  simp only [read, readWith, h] at hps
  split at hps
  · cases hps
  · obtain ⟨found, rfl⟩ := ofValue_eq_mapping hps
    exact locate_sublist Yaml.decode source (entries source) found

end Rename

section Read

variable {fault : Fault}

/-- A text that repeats a key is read as its entries are, if they give any pair. -/
theorem read_repeated {ps : List Pair} (hblank : (trim (clean source)).isEmpty = false)
    (h : Yaml.decode (clean source) = .error fault) (htop : fault.isTopDuplicate = true)
    (hne : ps ≠ []) :
    read source = .mapping ps ↔ locateEach? Yaml.decode source (entries source) = some ps := by
  simp only [read, readWith, hblank, h, htop, Bool.false_eq_true, if_false, if_true]
  cases locateEach? Yaml.decode source (entries source) with
  | none => simp
  | some qs =>
    cases qs with
    | nil => simpa using hne.symm
    | cons q qs => simp

theorem locateEach?_eq_parts {es : List Entry} {ps : List Pair}
    (hnodup : (es.map Entry.key).Nodup)
    (hps : (ps.map (·.key.span)).Sublist (es.map Entry.key)) :
    locateEach? decode source es = some ps ↔
      ∀ e ∈ es, alone? decode source e = some (under e.key ps) := by
  rw [locateEach?_eq_some]
  constructor
  · rintro ⟨hall, rfl⟩ e he
    obtain ⟨part, hpart⟩ := Option.ne_none_iff_exists'.mp (hall e he)
    have hparts : ∀ d ∈ es, ∀ p ∈ (alone? decode source d).getD [], p.key.span = d.key := by
      intro d hd p hp
      obtain ⟨own, hown⟩ := Option.ne_none_iff_exists'.mp (hall d hd)
      rw [hown] at hp
      exact span_of_mem_alone? hown p hp
    rw [under_flatMap hnodup hparts he, hpart]
    rfl
  · intro hall
    constructor
    · intro e he
      rw [hall e he]
      exact Option.some_ne_none _
    · have hparts : es.flatMap (fun e => (alone? decode source e).getD []) =
          es.flatMap (fun e => under e.key ps) := by
        rw [List.flatMap_def, List.flatMap_def]
        congr 1
        apply List.map_congr_left
        intro e he
        rw [hall e he]
        rfl
      rw [hparts, flatMap_under hnodup hps]

/-- A key of a mapping is overwritten by a name of its size, so that it repeats
another one. The entries stay where they are. The pairs do too, up to the new
name, exactly if each entry by itself gives the pair that it has in the whole. -/
theorem read_overwrite_iff {v : Value} {ps : List Pair} {p : Pair} {name : List Char}
    (hv : Yaml.decode (clean source) = .ok v) (hps : read source = .mapping ps) (hp : p ∈ ps)
    (hquote : (slice source p.key.span).head?.any isQuote = false) (hname : isName name = true)
    (hsize : byteSize name = p.key.span.size)
    (h : Yaml.decode (clean (overwrite source p.key.span name)) = .error fault)
    (htop : fault.isTopDuplicate = true) :
    entries (overwrite source p.key.span name) = entries source ∧
      (read (overwrite source p.key.span name) = .mapping (rename p.key.span name ps) ↔
        (∀ e ∈ entries source, e.key ≠ p.key.span →
          alone? Yaml.decode source e = some (under e.key ps)) ∧
        ∀ e ∈ entries source, e.key = p.key.span →
          alone? Yaml.decode (overwrite source p.key.span name) e =
            some (under e.key (rename p.key.span name ps))) := by
  have hmem : p ∈ (read source).pairs := hps ▸ hp
  obtain ⟨own, hown, hof⟩ := mem_pairs_readWith hmem
  have hkey : p.key.span = own.key := by rw [hof.key]
  rw [hkey] at hquote hsize h ⊢
  have hentries := entries_overwrite hown hquote (named_of_isName hname) hsize
  have hblank : (trim (clean (overwrite source own.key name))).isEmpty = false := by
    apply isEmpty_trim_of_mem (e := own)
    rwa [hentries]
  have hne : rename own.key name ps ≠ [] := by
    intro hnil
    rw [List.map_eq_nil_iff.mp hnil] at hp
    cases hp
  have horder : ((rename own.key name ps).map (·.key.span)).Sublist
      ((entries source).map Entry.key) := by
    rw [span_rename]
    exact read_sublist hv hps
  refine ⟨hentries, ?_⟩
  rw [read_repeated hblank h htop hne, hentries,
    locateEach?_eq_parts (nodup_keys source) horder]
  have hother : ∀ e ∈ entries source, e.key ≠ own.key →
      (alone? Yaml.decode (overwrite source own.key name) e =
          some (under e.key (rename own.key name ps)) ↔
        alone? Yaml.decode source e = some (under e.key ps)) := by
    intro e he hne
    have hdiffer : e ≠ own := fun heq => hne (congrArg Entry.key heq)
    rw [alone?_kept (kept_overwrite he hown hdiffer hsize), under_rename hne]
  constructor
  · intro hall
    exact ⟨fun e he hne => (hother e he hne).mp (hall e he), fun e he _ => hall e he⟩
  · rintro ⟨hothers, hself⟩ e he
    by_cases heq : e.key = own.key
    · exact hself e he heq
    · exact (hother e he heq).mpr (hothers e he heq)

theorem read_overwrite_iff_quoted :
    let source := "ab: 'p\n  q'\n# n\ncd: x # y\nef : 1".toList
    let ps : List Pair :=
      [⟨⟨"ab".toList, ⟨0, 2⟩⟩, some ⟨"p q".toList, ⟨4, 11⟩⟩⟩,
        ⟨⟨"cd".toList, ⟨16, 18⟩⟩, some ⟨['x'], ⟨20, 21⟩⟩⟩,
        ⟨⟨"ef".toList, ⟨26, 28⟩⟩, some ⟨['1'], ⟨31, 32⟩⟩⟩]
    let renamed := overwrite source ⟨26, 28⟩ "ab".toList
    read source = .mapping ps ∧
      Yaml.decode (clean renamed) = .error (.duplicateKey ['.']) ∧
      entries renamed = entries source ∧
      read renamed = .mapping (rename ⟨26, 28⟩ "ab".toList ps) := by
  intro source ps renamed
  have hdecode : Yaml.decode (clean source) = .ok (.mapping
      [(.string "ab".toList, .string "p q".toList), (.string "cd".toList, .string ['x']),
        (.string "ef".toList, .number (.natural 1))]) := by
    decide +kernel
  have hread : read source = .mapping ps := by decide +kernel
  have hrefused : Yaml.decode (clean renamed) = .error (.duplicateKey ['.']) := by decide +kernel
  have hmem : ⟨⟨"ef".toList, ⟨26, 28⟩⟩, some ⟨['1'], ⟨31, 32⟩⟩⟩ ∈ ps := by decide
  obtain ⟨hentries, hpairs⟩ := read_overwrite_iff hdecode hread hmem (by decide +kernel)
    (by decide +kernel) (by decide) hrefused rfl
  exact ⟨hread, hrefused, hentries, hpairs.mpr (by decide +kernel)⟩

/-- The line break at the end of a block scalar does not belong to its entry. -/
theorem read_overwrite_block :
    let source := "style: |\n  x\na: 1\nb: 2".toList
    let renamed := overwrite source ⟨18, 19⟩ ['a']
    renamed = "style: |\n  x\na: 1\na: 2".toList ∧
      (read source).pairs.map (·.value.map Item.text) = [some "x\n".toList, some ['1'], some ['2']] ∧
      (read renamed).pairs.map (·.value.map Item.text) = [some ['x'], some ['1'], some ['2']] := by
  decide +kernel

end Read

section Malformed

/-- A source with some of its plain keys overwritten, one after the other, by names of their size. -/
inductive Renames (source : List Char) : List Char → Prop
  | refl : Renames source source
  | step {renamed name : List Char} {e : Entry} (h : Renames source renamed)
      (he : e ∈ entries renamed) (hquote : (slice renamed e.key).head?.any isQuote = false)
      (hname : isName name = true) (hsize : byteSize name = e.key.size) :
      Renames source (overwrite renamed e.key name)

variable {renamed : List Char} {fault : Fault}

theorem Renames.entries_eq (h : Renames source renamed) : entries renamed = entries source := by
  induction h with
  | refl => rfl
  | step h he hquote hname hsize ih =>
    rw [entries_overwrite he hquote (named_of_isName hname) hsize, ih]

structure Trails (source source' : List Char) (e : Entry) : Prop where
  tail : slice source' ⟨e.key.stop, e.stop⟩ = slice source ⟨e.key.stop, e.stop⟩
  value : ∀ v, e.value = some v → slice source' v = slice source v

theorem trails_overwrite {d e : Entry} {name : List Char} (hd : d ∈ entries source)
    (he : e ∈ entries source) (hsize : byteSize name = e.key.size) :
    Trails source (overwrite source e.key name) d := by
  have hother := slice_overwrite he hsize
  have hlies := (entries_ordered source).2 d hd
  by_cases hde : d = e
  · subst hde
    exact ⟨hother _ (Or.inr (Nat.le_refl _)),
      fun v hv => hother v (Or.inr (Nat.le_of_lt (hlies.apart v hv)))⟩
  · refine ⟨?_, (kept_overwrite hd he hde hsize).value⟩
    rcases lies_or_lies hd he hde with hbefore | hbehind
    · exact hother _ (Or.inl (Nat.le_of_lt hbefore.stop_lt))
    · have hkey := hbehind.key_le
      have hstop := hbehind.stop_lt
      have hlt := hlies.key_lt
      exact hother _ (Or.inr (by simp only; omega))

theorem Renames.trails (h : Renames source renamed) {d : Entry} (hd : d ∈ entries source) :
    Trails source renamed d := by
  induction h with
  | refl => exact ⟨rfl, fun _ _ => rfl⟩
  | step h he hquote hname hsize ih =>
    rw [← h.entries_eq] at hd
    have hstep := trails_overwrite hd he hsize
    exact ⟨hstep.tail.trans ih.tail, fun v hv => (hstep.value v hv).trans (ih.value v hv)⟩

/-- An entry whose key was not renamed has the text that it had. -/
theorem Renames.kept (h : Renames source renamed) {d : Entry} (hd : d ∈ entries source)
    (hkey : slice renamed d.key = slice source d.key) : Kept source renamed d := by
  have htrails := h.trails hd
  refine ⟨?_, hkey, htrails.value⟩
  have hlies := (entries_ordered source).2 d hd
  have hsplit : ∀ cs : List Char, d ∈ entries cs → slice cs ⟨d.key.start, d.stop⟩ =
      slice cs d.key ++ slice cs ⟨d.key.stop, d.stop⟩ := by
    intro cs hcs
    have hfits := (entries_fit cs d hcs).key
    exact slice_split hfits.stopBoundary hfits.ordered hlies.key_le hfits.startBoundary
  rw [hsplit source hd, hsplit renamed (h.entries_eq ▸ hd), hkey, htrails.tail]

theorem parts_eq_nil {es : List Entry} (h : locateEach? decode source es = some []) :
    ∀ e ∈ es, alone? decode source e = some [] := by
  obtain ⟨hall, hparts⟩ := locateEach?_eq_some.mp h
  intro e he
  obtain ⟨part, hpart⟩ := Option.ne_none_iff_exists'.mp (hall e he)
  have hnil := List.flatMap_eq_nil_iff.mp hparts e he
  rw [hpart] at hnil ⊢
  exact congrArg some hnil

theorem pairs_of_refused (hblank : (trim (clean source)).isEmpty = false)
    (h : Yaml.decode (clean source) = .error fault) : (read source).pairs =
      if fault.isTopDuplicate then (locateEach? Yaml.decode source (entries source)).getD []
      else [] := by
  simp only [read, readWith, hblank, h, Bool.false_eq_true, if_false]
  split
  · cases locateEach? Yaml.decode source (entries source) with
    | none => rfl
    | some qs => cases qs <;> rfl
  · rfl

theorem pairs_eq_nil_of_refused (h : Yaml.decode (clean source) = .error fault) :
    (read source).pairs = [] ↔ fault.isTopDuplicate = false ∨
      (∃ e ∈ entries source, alone? Yaml.decode source e = none) ∨
      ∀ e ∈ entries source, alone? Yaml.decode source e = some [] := by
  cases hblank : (trim (clean source)).isEmpty with
  | true =>
    have hnone : ∀ e, e ∉ entries source := by
      intro e he
      rw [isEmpty_trim_of_mem he] at hblank
      cases hblank
    have hpairs : (read source).pairs = [] := by
      simp only [read, readWith, hblank, if_true]
      rfl
    exact iff_of_true hpairs (Or.inr (Or.inr fun e he => absurd he (hnone e)))
  | false =>
    rw [pairs_of_refused hblank h, ← locateEach?_eq_none]
    cases fault.isTopDuplicate with
    | false => simp
    | true =>
      simp only [if_true, Bool.true_eq_false, false_or]
      constructor
      · intro hnil
        cases hparts : locateEach? Yaml.decode source (entries source) with
        | none => exact Or.inl rfl
        | some qs =>
          rw [hparts] at hnil
          obtain rfl : qs = [] := hnil
          exact Or.inr (parts_eq_nil hparts)
      · rintro (hnone | hall)
        · rw [hnone]
          rfl
        · have hsome : locateEach? Yaml.decode source (entries source) = some [] := by
            rw [locateEach?_eq_some]
            refine ⟨fun e he => ?_, List.flatMap_eq_nil_iff.mpr fun e he => ?_⟩
            · rw [hall e he]
              exact Option.some_ne_none []
            · rw [hall e he]
              rfl
          rw [hsome]
          rfl

/-- Pairs of a text that is refused are lost exactly if a key below the top
repeats, an entry does not decode by itself, or no entry is a mapping by itself.
Renaming its keys changes neither the entries nor how those read whose keys stay:
what is wrong between the entries is not seen. -/
theorem refused_pairs_iff (hren : Renames source renamed)
    (h : Yaml.decode (clean source) = .error fault) :
    entries renamed = entries source ∧
      (∀ e ∈ entries renamed, slice renamed e.key = slice source e.key →
        alone? Yaml.decode renamed e = alone? Yaml.decode source e) ∧
      ((read source).pairs = [] ↔ fault.isTopDuplicate = false ∨
        (∃ e ∈ entries renamed, alone? Yaml.decode source e = none) ∨
        ∀ e ∈ entries renamed, alone? Yaml.decode source e = some []) ∧
      ∀ (deck : Deck.Source) (offset : Nat) (context : Context),
        deck.directives offset context source = [] ↔ (read source).pairs = [] := by
  refine ⟨hren.entries_eq, ?_, ?_, ?_⟩
  · intro e he hkey
    rw [hren.entries_eq] at he
    exact alone?_kept (hren.kept he hkey)
  · rw [hren.entries_eq]
    exact pairs_eq_nil_of_refused h
  · intro deck offset context
    rw [Deck.Source.directives, List.map_eq_nil_iff]

theorem refused_pairs_iff_nested :
    let source := "a: 1\na: 2\nb: x: y".toList
    let renamed := overwrite source ⟨5, 6⟩ ['c']
    let nested : Entry := ⟨⟨10, 11⟩, some ⟨13, 17⟩, 17⟩
    Renames source renamed ∧ Yaml.decode (clean source) = .error (.duplicateKey ['.']) ∧
      nested ∈ entries renamed ∧ alone? Yaml.decode renamed nested = none ∧
      (read source).pairs = [] := by
  intro source renamed nested
  have hmem : ⟨⟨5, 6⟩, some ⟨8, 9⟩, 9⟩ ∈ entries source := by decide +kernel
  have hren : Renames source renamed :=
    Renames.step Renames.refl hmem (by decide +kernel) (by decide +kernel) (by decide)
  have hrefused : Yaml.decode (clean source) = .error (.duplicateKey ['.']) := by decide +kernel
  have hnested : nested ∈ entries renamed := by decide +kernel
  have halone : alone? Yaml.decode renamed nested = none := by decide +kernel
  obtain ⟨-, hkept, hpairs, -⟩ := refused_pairs_iff hren hrefused
  have hsource : alone? Yaml.decode source nested = none :=
    (hkept nested hnested (by decide +kernel)).symm.trans halone
  exact ⟨hren, hrefused, hnested, halone, hpairs.mpr (Or.inr (Or.inl ⟨nested, hnested, hsource⟩))⟩

/-- A line that belongs to no entry is not seen where a key is repeated, though
it is refused where no key is. -/
theorem refused_pairs_stray :
    let source := "a: 1\na: 2\nstray".toList
    let renamed := overwrite source ⟨5, 6⟩ ['b']
    Renames source renamed ∧ Yaml.decode (clean renamed) = .error .malformed ∧
      Yaml.decode (clean source) = .error (.duplicateKey ['.']) ∧
      (read source).pairs.length = 2 := by
  intro source renamed
  have hmem : ⟨⟨5, 6⟩, some ⟨8, 9⟩, 9⟩ ∈ entries source := by decide +kernel
  exact ⟨Renames.step Renames.refl hmem (by decide +kernel) (by decide +kernel) (by decide),
    by decide +kernel, by decide +kernel, by decide +kernel⟩

end Malformed

end SlideDirectives.Yaml.Outline
