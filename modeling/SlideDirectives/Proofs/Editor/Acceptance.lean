import SlideDirectives.Proofs.Editor.Detection
import SlideDirectives.Proofs.Editor.KnownNames
import SlideDirectives.Proofs.Editor.Offers
import SlideDirectives.Proofs.FrontMatter.Grammar
import SlideDirectives.Proofs.Text.LineCuts
import SlideDirectives.Proofs.Yaml.Page.Read

/-!
# Accepted values

A value is inserted as it is named, so a document gives it back if what is
written behind the key reads as the name again. A name that is a plain line
does, unless it is a number that spells no value. What a document gives back is
known to the rules that would report it.
-/

set_option autoImplicit false

namespace SlideDirectives

open Text Deck

namespace Deck.Source

variable {s : Source} {p : FrontMatter.Parts}

theorem cut_at_parts (htext : s.document.text = p.text) (h : p.Valid) :
    s.front? = some p.frontMatter ∧ s.document.textIn p.frontMatter.body = p.body ∧
      s.body = p.rest := by
  have hfront : s.front? = some p.frontMatter := by
    rw [front?, htext, FrontMatter.find?_complete h]
  have hbody : s.document.textIn p.frontMatter.body = p.body := by
    rw [Document.textIn, htext, p.holds_body.slice_eq]
  refine ⟨hfront, hbody, ?_⟩
  obtain ⟨before, after, -, hspan⟩ := p.holds_span
  have hbefore : 0 = byteSize before := congrArg Span.start hspan
  have hstop : p.frontMatter.span.stop = byteSize (p.opening ++ '\n' :: (p.body ++ p.closing)) := by
    rw [hspan, ← hbefore, Nat.zero_add]
  have hsplit : p.text = (p.opening ++ '\n' :: (p.body ++ p.closing)) ++ p.rest := by
    simp [FrontMatter.Parts.text]
  rw [body, bodyStart, hfront, Option.map_some, Option.getD_some, hstop, htext, hsplit,
    dropBytes_byteSize_append]

theorem pass_only_front {f : FrontMatter} {parse : Markdown.Parser} {t : Markdown.Tree}
    (hfront : s.front? = some f) (hparse : parse s.body = .ok t) (hnodes : t.nodes = []) :
    ∃ es, (s.passWith parse).toExcept = .ok es ∧ es.filterMap Event.directive? =
      (Yaml.Outline.read (s.document.textIn f.body)).pairs.map
        (s.directive f.body.start .frontMatter) := by
  have hpass : (s.passWith parse).toExcept =
      .ok (.startParse :: ((s.front?.map s.frontMatter).getD [] ++ [.endParse])) := by
    rw [passWith, hparse, passOver, visitParsed, visit_eq_join, hnodes]
    rfl
  refine ⟨_, hpass, ?_⟩
  rw [← frontDirectives_some hfront, frontDirectives, List.filterMap_cons_none rfl,
    List.filterMap_append]
  exact List.append_nil _

end Deck.Source

namespace Editor

/-- A directive whose values an editor lists by name. -/
inductive Listed where
  | theme
  | size
  deriving DecidableEq, Repr

namespace Listed

def key : Listed → List Char
  | theme => "theme".toList
  | size => "size".toList

def names (o : Resolved) : Listed → List (List Char)
  | theme => o.themes
  | size => o.sizes

def rule : Listed → RuleName
  | theme => .unknownTheme
  | size => .unknownSize

variable {o : Options} {x : List Char}

theorem key_injective : Function.Injective key := by
  intro l l' h
  cases l <;> cases l' <;> first | rfl | exact absurd h (by decide)

theorem mem_names (l : Listed) (h : x ∈ l.names o.resolve) : trim x = x ∧ x ≠ [] := by
  have hbuiltin : ∀ y ∈ builtinThemes ++ builtinSizes, trim y = y ∧ y ≠ [] := by decide
  have hlists : ∀ names, Lists names x → trim x = x ∧ x ≠ [] := by
    rintro names ⟨hx, name, -, rfl⟩
    exact ⟨trim_trim name, hx⟩
  cases l with
  | theme =>
    rcases mem_knownNames.mp h with h | h
    · exact hbuiltin x (List.mem_append_left _ h)
    · exact hlists _ h
  | size =>
    rcases mem_knownNames.mp h with h | h
    · exact hbuiltin x (List.mem_append_right _ h)
    · exact hlists _ h

theorem found {r : Resolved} {text : List Char} {ds : List Diagnostic} {d : Diagnostic} (l : Listed)
    (h : diagnose r text = .ok ds) (hd : d ∈ ds) (hrule : d.rule = l.rule) :
    ∃ es e, (pass text).toExcept = .ok es ∧ .directive e ∈ es ∧ e.name? = some l.key ∧
      e.valueText ∉ l.names r := by
  obtain ⟨es, before, e, after, hpass, hes, hasked⟩ := asked_of_mem h hd
  rw [hrule] at hasked
  cases e with
  | directive e =>
    refine ⟨es, e, hpass, by simp [hes], ?_⟩
    cases l with
    | theme =>
      obtain ⟨v, ⟨hname, hvalue, -⟩, hunknown, -⟩ := Rule.unknownThemeOf_eq_some.mp hasked
      rw [DirectiveEvent.valueText, hvalue]
      exact ⟨hname, hunknown⟩
    | size =>
      obtain ⟨v, ⟨hname, hvalue, -⟩, hunknown, -⟩ := Rule.unknownSizeOf_eq_some.mp hasked
      rw [DirectiveEvent.valueText, hvalue]
      exact ⟨hname, hunknown⟩
  | _ => cases l <;> cases hasked

end Listed

section Offered

open Completion

variable {o : Resolved} {text : List Char} {p : Position} {items : List Completion} {i : Completion}

theorem values_of_mem (h : complete o text p = .ok items) (hi : i ∈ items)
    (hkind : i.kind = .value) : ∃ context key range, i ∈ values o context key range := by
  obtain ⟨es, -, rfl⟩ := complete_eq_ok h
  obtain ⟨r, -, -, hoffer⟩ := offer_of_mem hi
  obtain ⟨key, range, hvalues⟩ := hoffer.values_of_mem hi hkind
  exact ⟨r.context, key, range, hvalues ▸ hi⟩

theorem names_of_mem_values {context : Context} {key : List Char} {range : Range} (l : Listed)
    (h : i ∈ values o context key range) (hdetail : i.detail = String.ofList l.key) :
    i.inserted = i.label ∧ i.label ∈ l.names o := by
  rw [values] at h
  split at h
  · next found _ =>
    obtain ⟨value, hvalue, rfl⟩ := List.mem_map.mp h
    have hname : found.definition.name = l.key := String.ofList_injective hdetail
    refine ⟨rfl, ?_⟩
    rw [valuesOf, hname] at hvalue
    split at hvalue
    · cases hvalue
    · cases l <;> exact hvalue
  · cases h

end Offered

def setting (key value : List Char) : List Char :=
  key ++ ':' :: ' ' :: value

def accepted (key value : List Char) : List Char :=
  "---\n".toList ++ (setting key value ++ "\n---\n".toList)

/-- No line of the value ends the front matter that it is inserted in. -/
def StaysOpen (key value : List Char) : Prop :=
  ∀ line ∈ rows (setting key value), trim line ≠ "---".toList

/-- Behind its key the value is read as it is written, but for white space. -/
def ReadsBack (key value : List Char) : Prop :=
  ∃ p v, (Yaml.Outline.read (setting key value ++ ['\n'])).pairs = [p] ∧
    p.key.text = key ∧ p.value = some v ∧ trim v.text = value

/-- The document has a single directive, which sets the value. -/
def GivesBack (text key value : List Char) : Prop :=
  ∃ es e, (pass text).toExcept = .ok es ∧ es.filterMap Event.directive? = [e] ∧
    e.key.text = key ∧ e.name? = some key ∧ e.valueText = value

section Accepted

variable {key value : List Char}

def acceptedParts (key value : List Char) : FrontMatter.Parts :=
  ⟨"---".toList, setting key value ++ ['\n'], "---".toList, ['\n']⟩

theorem text_acceptedParts (key value : List Char) :
    (acceptedParts key value).text = accepted key value := by
  simp [FrontMatter.Parts.text, acceptedParts, accepted]

theorem acceptedParts_valid (h : StaysOpen key value) : (acceptedParts key value).Valid := by
  have hclosing : '\n' ∉ "---".toList ∧ trim "---".toList = ['-', '-', '-'] := by decide
  refine ⟨⟨3, [], Nat.le_refl 3, rfl, by simp⟩, ⟨rows (setting key value), (flatMap_rows _).symm, ?_⟩,
    hclosing, Or.inr ⟨[], rfl⟩⟩
  exact fun line hline => ⟨newline_not_mem_rows _ line hline, h line hline⟩

theorem accepted_directives (h : StaysOpen key value) :
    let s : Source := ⟨⟨accepted key value⟩, Registry.builtin⟩
    ∃ es, (pass (accepted key value)).toExcept = .ok es ∧ es.filterMap Event.directive? =
      (Yaml.Outline.read (setting key value ++ ['\n'])).pairs.map (s.directive 4 .frontMatter) := by
  intro s
  have htext : s.document.text = (acceptedParts key value).text :=
    (text_acceptedParts key value).symm
  obtain ⟨hfront, hbody, hrest⟩ := Source.cut_at_parts htext (acceptedParts_valid h)
  have hnodes : (Markdown.tree .slideDeck s.body).nodes = [] := by
    rw [hrest]
    change (Markdown.tree .slideDeck ['\n']).nodes = []
    decide +kernel
  have hparse : Markdown.parse .slideDeck s.body = .ok (Markdown.tree .slideDeck s.body) := rfl
  obtain ⟨es, hpass, hdirectives⟩ := Source.pass_only_front hfront hparse hnodes
  refine ⟨es, hpass, ?_⟩
  rw [hdirectives, hbody]
  rfl

theorem Listed.name?_directive (l : Listed) {s : Source} (hs : s.registry = Registry.builtin)
    (offset : Nat) {p : Yaml.Pair} (hkey : p.key.text = l.key) :
    (s.directive offset .frontMatter p).name? = some l.key := by
  simp only [DirectiveEvent.name?, Source.directive, hs, hkey]
  cases l <;> decide

theorem valueText_directive (s : Source) (offset : Nat) (context : Context) {p : Yaml.Pair}
    {v : Yaml.Item} (hvalue : p.value = some v) :
    (s.directive offset context p).valueText = trim v.text := by
  simp [DirectiveEvent.valueText, Source.directive, Source.ranged, hvalue]

theorem givesBack_iff (l : Listed) (hopen : StaysOpen l.key value) (hne : value ≠ []) :
    GivesBack (accepted l.key value) l.key value ↔ ReadsBack l.key value := by
  obtain ⟨es, hpass, hdirectives⟩ := accepted_directives hopen
  constructor
  · rintro ⟨es', e, hpass', hsingle, hkey, -, hvalue⟩
    obtain rfl := Except.ok.inj (hpass.symm.trans hpass')
    rw [hdirectives, List.map_eq_singleton_iff] at hsingle
    obtain ⟨p, hpairs, rfl⟩ := hsingle
    cases hv : p.value with
    | none =>
      rw [DirectiveEvent.valueText, Source.directive, hv] at hvalue
      exact absurd hvalue.symm hne
    | some v =>
      rw [valueText_directive _ _ _ hv] at hvalue
      exact ⟨p, v, hpairs, hkey, hv, hvalue⟩
  · rintro ⟨p, v, hpairs, hkey, hv, hvalue⟩
    rw [hpairs, List.map_cons, List.map_nil] at hdirectives
    refine ⟨es, _, hpass, hdirectives, hkey, l.name?_directive rfl 4 hkey, ?_⟩
    rw [valueText_directive _ _ _ hv, hvalue]

open Yaml.Page in
theorem staysOpen_of_plainLine (l : Listed) (h : PlainLine value) : StaysOpen l.key value := by
  have hkey : '\n' ∉ l.key := by cases l <;> decide
  have hvalue : '\n' ∉ value :=
    fun hmem => isInline_ne (List.all_eq_true.mp h.inline _ hmem) (by decide) rfl
  have hline : '\n' ∉ setting l.key value := by simp [setting, hkey, hvalue]
  intro line hmem htrim
  rw [rows_of_not_mem hline, List.mem_singleton] at hmem
  have hcolon : ':' ∈ trim line := mem_trim (by simp [hmem, setting]) (by decide)
  rw [htrim] at hcolon
  exact absurd hcolon (by decide)

open Yaml.Page in
theorem readsBack_of_plainLine (l : Listed) (h : PlainLine value)
    (hnarrow : Yaml.Number.whole? value ≠ some .tooWide) (htrim : trim value = value) :
    ReadsBack l.key value := by
  let key : Yaml.Page.Key := ⟨l.key, by cases l <;> decide, by cases l <;> decide⟩
  refine ⟨linePair key value, _, ?_, rfl, rfl, htrim⟩
  have hread := h.read hnarrow key
  rw [setting, List.append_assoc, List.cons_append, List.cons_append]
  exact congrArg Yaml.Outline.pairs hread

theorem GivesBack.known {o : Resolved} {text : List Char} {l : Listed}
    (h : GivesBack text l.key value) (hknown : value ∈ l.names o) :
    ∃ ds, diagnose o text = .ok ds ∧ ∀ d ∈ ds, ∀ l' : Listed, d.rule ≠ l'.rule := by
  obtain ⟨es, e, hpass, hsingle, -, hname, hvalue⟩ := h
  have hdiagnose : ∃ ds, diagnose o text = .ok ds := by
    rw [diagnose, runRules, hpass]
    split
    · exact ⟨_, rfl⟩
    · exact ⟨_, rfl⟩
  obtain ⟨ds, hds⟩ := hdiagnose
  refine ⟨ds, hds, fun d hd l' hrule => ?_⟩
  obtain ⟨es', e', hpass', he', hname', hunknown⟩ := l'.found hds hd hrule
  obtain rfl := Except.ok.inj (hpass.symm.trans hpass')
  -- It would be about the one directive that there is.
  have hmem := mem_filterMap_directive?.mpr he'
  rw [hsingle, List.mem_singleton] at hmem
  subst hmem
  rw [hname, Option.some.injEq] at hname'
  obtain rfl := Listed.key_injective hname'
  rw [hvalue] at hunknown
  exact hunknown hknown

end Accepted

section Values

open Yaml.Page

/-- A value that is offered for a theme or a size is inserted as it is named. It
comes back from the front matter if it is a plain line, unless it is a whole
number past 64 bits but within 128; and as long as none of its lines closes the
front matter, it does exactly if it is read back from behind its key. Whenever it
comes back, it is not reported as unknown. -/
theorem accepted_values (o : Options) (text : List Char) (p : Position) (items : List Completion)
    (h : complete o.resolve text p = .ok items) (i : Completion) (hi : i ∈ items)
    (hkind : i.kind = .value) (l : Listed) (hdetail : i.detail = String.ofList l.key) :
    let doc := accepted l.key i.inserted
    i.inserted = i.label ∧
    (PlainLine i.label → Yaml.Number.whole? i.label ≠ some .tooWide →
      GivesBack doc l.key i.label) ∧
    (StaysOpen l.key i.inserted → (GivesBack doc l.key i.label ↔ ReadsBack l.key i.label)) ∧
    (GivesBack doc l.key i.label → ∃ ds, diagnose o.resolve doc = .ok ds ∧
      ∀ d ∈ ds, d.rule ≠ .unknownTheme ∧ d.rule ≠ .unknownSize) := by
  obtain ⟨context, key, range, hvalues⟩ := values_of_mem h hi hkind
  obtain ⟨hinserted, hknown⟩ := names_of_mem_values l hvalues hdetail
  obtain ⟨htrim, hne⟩ := l.mem_names hknown
  rw [hinserted]
  refine ⟨rfl, fun hplain hnarrow => ?_, fun hopen => givesBack_iff l hopen hne, fun hback => ?_⟩
  · rw [givesBack_iff l (staysOpen_of_plainLine l hplain) hne]
    exact readsBack_of_plainLine l hplain hnarrow htrim
  · obtain ⟨ds, hds, hrules⟩ := hback.known hknown
    exact ⟨ds, hds, fun d hd => ⟨hrules d hd .theme, hrules d hd .size⟩⟩

/-- A name with characters that mean something elsewhere in a line. -/
theorem accepted_values_quote :
    let o : Options := { Options.standard with themes := ["\tit's C#:8 ".toList] }
    let label := "it's C#:8".toList
    let doc := "---\ntheme: it's C#:8\n---\n".toList
    ∃ items, complete o.resolve "<!-- theme: -->".toList ⟨0, 11⟩ = .ok items ∧
      (∃ i ∈ items, i.kind = .value ∧ i.detail = "theme" ∧ i.label = label ∧ i.inserted = label) ∧
      PlainLine label ∧ Yaml.Number.whole? label = none ∧
      GivesBack doc "theme".toList label ∧
      ∃ ds, diagnose o.resolve doc = .ok ds ∧ ∀ d ∈ ds, d.rule ≠ .unknownTheme := by
  intro o label doc
  let items := Completion.values o.resolve .comment "theme".toList ⟨⟨0, 11⟩, ⟨0, 11⟩, ⟨11, 11⟩⟩
  have hitems : complete o.resolve "<!-- theme: -->".toList ⟨0, 11⟩ = .ok items := by decide +kernel
  have hmem : ∃ i ∈ items, i.kind = .value ∧ i.detail = "theme" ∧ i.label = label := by
    decide +kernel
  have hlast : ∀ c ∈ label.getLast?, isBlank c = false := by
    intro c hc
    obtain rfl : '8' = c := Option.some.inj hc
    decide
  have hplain : PlainLine label := ⟨by decide, by decide, by decide, hlast⟩
  have hwhole : Yaml.Number.whole? label = none := by decide
  obtain ⟨i, hi, hkind, hdetail, hlabel⟩ := hmem
  obtain ⟨hinserted, hgiven, -, hknown⟩ := accepted_values o _ _ items hitems i hi hkind .theme hdetail
  rw [hinserted, hlabel] at hgiven hknown
  have hback := hgiven hplain (by rw [hwhole]; exact nofun)
  obtain ⟨ds, hds, hrules⟩ := hknown hback
  exact ⟨items, hitems, ⟨i, hi, hkind, hdetail, hlabel, hinserted.trans hlabel⟩, hplain, hwhole,
    hback, ds, hds, fun d hd => (hrules d hd).1⟩

/-- A name is offered that is a comment from its third character on: it is cut
short when it is accepted, and reported. -/
theorem accepted_values_comment :
    let o : Options := { Options.standard with themes := ["x # y".toList] }
    let label := "x # y".toList
    let doc := accepted "theme".toList label
    (∃ items, complete o.resolve "<!-- theme: -->".toList ⟨0, 11⟩ = .ok items ∧
      ∃ i ∈ items, i.kind = .value ∧ i.detail = "theme" ∧ i.label = label ∧ i.inserted = label) ∧
    ¬ GivesBack doc "theme".toList label ∧
    ∃ ds, diagnose o.resolve doc = .ok ds ∧ ∃ d ∈ ds, d.rule = .unknownTheme := by
  intro o label doc
  let items := Completion.values o.resolve .comment "theme".toList ⟨⟨0, 11⟩, ⟨0, 11⟩, ⟨11, 11⟩⟩
  have hitems : complete o.resolve "<!-- theme: -->".toList ⟨0, 11⟩ = .ok items := by decide +kernel
  have hfault : (pass doc).fault = none := by decide +kernel
  have hpass : (pass doc).toExcept = .ok (pass doc).events := by rw [Delivery.toExcept, hfault]
  have hvalues : ((pass doc).events.filterMap Event.directive?).map (·.valueText) = ["x".toList] := by
    decide +kernel
  refine ⟨⟨items, hitems, ?_⟩, ?_, _, @diagnose_of_events o.resolve doc _ _ rfl hpass, ?_⟩
  · decide +kernel
  · rintro ⟨es, e, hpass', hsingle, -, -, hvalue⟩
    obtain rfl := Except.ok.inj (hpass.symm.trans hpass')
    rw [hsingle, List.map_cons, hvalue] at hvalues
    exact absurd hvalues (by decide)
  · simp only [findings, (Diagnostic.sort_perm _).mem_iff]
    decide +kernel

end Values

end Editor

end SlideDirectives
