import Mathlib.Data.List.Basic
import SlideDirectives.Proofs.Deck.Shift

/-!
# Math of a pass

A node of math and a span that starts with two dollars are always math. A span in
single dollars is math by what stands inside its dollars and right behind it in
the whole document. Which math a pass reports is decided node by node, and front
matter has no part in it.
-/

set_option autoImplicit false

namespace SlideDirectives

namespace MathKind

open Text

/-- Text in single dollars that is math in front of `following`. -/
structure Single (raw following inner : List Char) : Prop where
  written : raw = '$' :: (inner ++ ['$'])
  single : ¬ ['$', '$'] <+: raw
  nonempty : inner ≠ []
  opening : ∀ c ∈ inner.head?, isBlank c = false
  closing : ∀ c ∈ inner.getLast?, isBlank c = false
  digit : inner.getLast? = some '\\' ∨ ∀ c ∈ following.head?, c.isDigit = false

variable {raw following inner : List Char} {kind : MathKind}

theorem inner?_eq_some : inner? raw = some inner ↔ raw = '$' :: (inner ++ ['$']) := by
  constructor
  · intro h
    unfold inner? at h
    split at h
    case h_1 cs =>
      split at h
      case isTrue hlast =>
        obtain ⟨front, rfl⟩ := List.getLast?_eq_some_iff.mp hlast
        rw [List.dropLast_concat, Option.some.injEq] at h
        rw [h]
      case isFalse => cases h
    case h_2 => cases h
  · rintro rfl
    simp [inner?]

theorem doubled_iff : ['$', '$'] <+: raw ↔ ∃ rest, raw = '$' :: '$' :: rest := by
  constructor
  · rintro ⟨rest, rfl⟩
    exact ⟨rest, rfl⟩
  · rintro ⟨rest, rfl⟩
    exact ⟨rest, rfl⟩

theorem classify?_doubled (h : ['$', '$'] <+: raw) : classify? raw following = some .block := by
  obtain ⟨rest, rfl⟩ := doubled_iff.mp h
  rfl

theorem classify?_rules {first last : Char} :
    (if isBlank first || isBlank last then none
      else if last ≠ '\\' ∧ following.head?.any Char.isDigit then none
      else some MathKind.inline) = some kind ↔
    kind = .inline ∧ isBlank first = false ∧ isBlank last = false ∧
      (last = '\\' ∨ ∀ c ∈ following.head?, c.isDigit = false) := by
  have hdigit : following.head?.any Char.isDigit = false ↔
      ∀ c ∈ following.head?, c.isDigit = false := by
    cases following.head? <;> simp
  constructor
  · intro h
    split at h
    case isTrue => cases h
    case isFalse hblank =>
      split at h
      case isTrue => cases h
      case isFalse hrest =>
        rw [Bool.or_eq_true, not_or, Bool.not_eq_true, Bool.not_eq_true] at hblank
        refine ⟨(Option.some.inj h).symm, hblank.1, hblank.2, ?_⟩
        by_cases hescaped : last = '\\'
        · exact .inl hescaped
        · rw [not_and, Bool.not_eq_true, hdigit] at hrest
          exact .inr (hrest hescaped)
  · rintro ⟨rfl, hfirst, hlast, hbehind⟩
    rw [if_neg (by simp [hfirst, hlast]), if_neg]
    rintro ⟨hescaped, hany⟩
    have hnone := hdigit.mpr (hbehind.resolve_left hescaped)
    rw [hnone] at hany
    cases hany

theorem classify?_inner (h : ¬ ['$', '$'] <+: raw) : classify? raw following = some kind ↔
    ∃ inner, raw = '$' :: (inner ++ ['$']) ∧ ∃ first, inner.head? = some first ∧
      ∃ last, inner.getLast? = some last ∧ kind = .inline ∧ isBlank first = false ∧
        isBlank last = false ∧ (last = '\\' ∨ ∀ c ∈ following.head?, c.isDigit = false) := by
  unfold classify?
  split
  case h_1 rest => exact absurd (doubled_iff.mpr ⟨rest, rfl⟩) h
  case h_2 =>
    simp only [Option.bind_eq_bind, Option.bind_eq_some_iff, inner?_eq_some, classify?_rules]

theorem classify?_single (h : ¬ ['$', '$'] <+: raw) :
    classify? raw following = some kind ↔ kind = .inline ∧ ∃ inner, Single raw following inner := by
  rw [classify?_inner h]
  constructor
  · rintro ⟨inner, hraw, first, hfirst, last, hlast, hkind, hopening, hclosing, hdigit⟩
    refine ⟨hkind, inner, hraw, h, ?_, ?_, ?_, ?_⟩
    case refine_1 =>
      rintro rfl
      cases hfirst
    case refine_2 =>
      intro c hc
      obtain rfl := Option.some.inj (hfirst.symm.trans hc)
      exact hopening
    case refine_3 =>
      intro c hc
      obtain rfl := Option.some.inj (hlast.symm.trans hc)
      exact hclosing
    case refine_4 =>
      rcases hdigit with rfl | hdigit
      · exact .inl hlast
      · exact .inr hdigit
  · rintro ⟨hkind, inner, hsingle⟩
    have hfirst := List.head?_eq_some_head hsingle.nonempty
    have hlast := List.getLast?_eq_some_getLast hsingle.nonempty
    refine ⟨inner, hsingle.written, _, hfirst, _, hlast, hkind,
      hsingle.opening _ hfirst, hsingle.closing _ hlast, ?_⟩
    rw [← Option.some.injEq, ← hlast]
    exact hsingle.digit

end MathKind

namespace Deck

open Text

def Event.mathEvent? : Event → Option MathEvent
  | .maybeMath e => some e
  | _ => none

theorem Delivery.join_of_no_fault {ds : List Delivery} (h : (join ds).fault = none) :
    (join ds).events = ds.flatMap Delivery.events := by
  induction ds with
  | nil => rfl
  | cons d ds ih =>
    rw [join, append] at h ⊢
    cases hfault : d.fault with
    | some f =>
      rw [hfault] at h
      exact absurd (hfault.symm.trans h) (by simp)
    | none =>
      rw [hfault] at h
      rw [List.flatMap_cons, ← ih h]

namespace Source

def written (s : Source) (span : Span) : List Char :=
  s.document.textIn (span.shift s.bodyStart)

def following (s : Source) (span : Span) : List Char :=
  dropBytes (span.shift s.bodyStart).stop s.document.text

/-- Which nodes are math, and of which kind. -/
inductive Counts (s : Source) : Markdown.Node → MathKind → Prop where
  | node (span : Span) : Counts s (.math span) .block
  | doubled {span : Span} (h : ['$', '$'] <+: s.written span) : Counts s (.inlineMath span) .block
  | single {span : Span} {inner : List Char}
      (h : MathKind.Single (s.written span) (s.following span) inner) :
      Counts s (.inlineMath span) .inline

def mathEvent (s : Source) (n : Markdown.Node) (kind : MathKind) : MathEvent :=
  ⟨kind, s.written n.span, s.document.rangeOf (n.span.shift s.bodyStart)⟩

/-- The math of nodes: one event for each that counts, in their order. -/
inductive Reported (s : Source) : List Markdown.Node → List MathEvent → Prop where
  | nil : Reported s [] []
  | math {n : Markdown.Node} {kind : MathKind} {nodes : List Markdown.Node} {es : List MathEvent}
      (counts : s.Counts n kind) (rest : Reported s nodes es) :
      Reported s (n :: nodes) (s.mathEvent n kind :: es)
  | other {n : Markdown.Node} {nodes : List Markdown.Node} {es : List MathEvent}
      (none : ∀ kind, ¬ s.Counts n kind) (rest : Reported s nodes es) : Reported s (n :: nodes) es

variable {s : Source} {n : Markdown.Node} {kind : MathKind}

def kind? (s : Source) : Markdown.Node → Option MathKind
  | .math _ => some .block
  | .inlineMath span => MathKind.classify? (s.written span) (s.following span)
  | _ => none

theorem kind?_eq_some : s.kind? n = some kind ↔ s.Counts n kind := by
  cases n with
  | html span => exact ⟨nofun, nofun⟩
  | image span image => exact ⟨nofun, nofun⟩
  | math span =>
    constructor
    · intro h
      obtain rfl := Option.some.inj h
      exact .node span
    · intro h
      cases h
      rfl
  | inlineMath span =>
    rw [kind?]
    by_cases hdoubled : ['$', '$'] <+: s.written span
    · rw [MathKind.classify?_doubled hdoubled]
      constructor
      · intro h
        obtain rfl := Option.some.inj h
        exact .doubled hdoubled
      · intro h
        cases h with
        | doubled => rfl
        | single h => exact absurd hdoubled h.single
    · rw [MathKind.classify?_single hdoubled]
      constructor
      · rintro ⟨rfl, inner, h⟩
        exact .single h
      · intro h
        cases h with
        | doubled h => exact absurd h hdoubled
        | single h => exact ⟨rfl, _, h⟩

theorem reported_iff {nodes : List Markdown.Node} {es : List MathEvent} :
    s.Reported nodes es ↔ es = nodes.filterMap fun n => (s.kind? n).map (s.mathEvent n) := by
  induction nodes generalizing es with
  | nil =>
    constructor
    · intro h
      cases h
      rfl
    · rintro rfl
      exact .nil
  | cons n nodes ih =>
    cases hkind : s.kind? n with
    | none =>
      have hnone : ∀ kind, ¬ s.Counts n kind := by
        intro kind hcounts
        rw [kind?_eq_some.mpr hcounts] at hkind
        cases hkind
      rw [List.filterMap_cons_none (by rw [hkind, Option.map_none]), ← ih]
      constructor
      · intro h
        cases h with
        | math counts => exact absurd counts (hnone _)
        | other _ rest => exact rest
      · exact Reported.other hnone
    | some kind =>
      have hcounts : s.Counts n kind := kind?_eq_some.mp hkind
      rw [List.filterMap_cons_some (by rw [hkind, Option.map_some])]
      constructor
      · intro h
        cases h with
        | @math _ kind' _ es counts rest =>
          rw [kind?_eq_some.mpr counts] at hkind
          obtain rfl := Option.some.inj hkind
          rw [ih.mp rest]
        | other none => exact absurd hcounts (none kind)
      · rintro rfl
        exact .math hcounts (ih.mpr rfl)

theorem frontMatter_no_math (f : FrontMatter) :
    (s.frontMatter f).filterMap Event.mathEvent? = [] := by
  rw [List.filterMap_eq_nil_iff]
  intro e he
  cases mem_frontMatter he <;> rfl

theorem fragment_no_math (offset : Nat) (span : Span) :
    (s.node offset (.html span)).events.filterMap Event.mathEvent? = [] := by
  rw [List.filterMap_eq_nil_iff]
  intro e he
  cases mem_node he <;> rfl

theorem node_math (n : Markdown.Node) :
    (s.node s.bodyStart n).events.filterMap Event.mathEvent? =
      ((s.kind? n).map (s.mathEvent n)).toList := by
  cases n with
  | html span => exact fragment_no_math _ span
  | image span image => rfl
  | math span => rfl
  | inlineMath span =>
    simp only [node, inlineMath, Delivery.ofEvents, kind?, written, following]
    cases MathKind.classify? (s.document.textIn (span.shift s.bodyStart))
      (dropBytes (span.shift s.bodyStart).stop s.document.text) with
    | none => rfl
    | some kind => rfl

theorem inner_math {parse : Markdown.Parser} (h : (s.inner parse).fault = none) :
    (s.inner parse).events.filterMap Event.mathEvent? =
      (parse.nodes s.body).filterMap fun n => (s.kind? n).map (s.mathEvent n) := by
  rcases inner_cases parse s with hinner | ⟨-, m, hinner⟩
  case inr =>
    rw [hinner] at h
    cases h
  rw [hinner] at h ⊢
  rw [Delivery.join_of_no_fault h, List.flatMap_map, List.filterMap_flatMap,
    List.filterMap_eq_flatMap_toList]
  exact List.flatMap_congr fun n _ => node_math n

theorem passWith_math {parse : Markdown.Parser}
    (h : (s.passWith parse).fault = none) :
    (s.passWith parse).events.filterMap Event.mathEvent? =
      (parse.nodes s.body).filterMap fun n => (s.kind? n).map (s.mathEvent n) := by
  rw [passWith_eq] at h ⊢
  have hfront : ((s.front?.map s.frontMatter).getD []).filterMap Event.mathEvent? = [] := by
    cases s.front? with
    | none => rfl
    | some f => exact frontMatter_no_math f
  have hclosing : (s.inner parse).closing.filterMap Event.mathEvent? = [] := by
    rw [Delivery.closing]
    split
    · rfl
    · rfl
  rw [List.filterMap_cons_none rfl, List.filterMap_append, List.filterMap_append, hfront, hclosing,
    List.nil_append, List.append_nil, inner_math h]

/-- A span of the body is written in the document where the body has it, and what
follows it there goes on to the end of the document. -/
theorem text_around {span : Span} (h : span.Fits s.body) :
    ∃ front before, byteSize front = s.bodyStart ∧
      s.document.text = front ++ (before ++ s.written span ++ s.following span) ∧
      span = ⟨byteSize before, byteSize before + byteSize (s.written span)⟩ := by
  obtain ⟨front, body, htext, hfront⟩ := isBoundary_iff.mp s.isBoundary_bodyStart
  have hbody : s.body = body := by
    rw [Source.body, htext, hfront, dropBytes_byteSize_append]
  have hwritten : s.written span = slice s.body span := slice_shift s.isBoundary_bodyStart span
  obtain ⟨before, after, hsplit, hspan⟩ := h.holds
  rw [← hwritten] at hsplit hspan
  have hstop : (span.shift s.bodyStart).stop = byteSize (front ++ (before ++ s.written span)) := by
    rw [Span.shift_stop, hfront, congrArg Span.stop hspan, byteSize_append, byteSize_append,
      Nat.add_comm]
  have hwhole : s.document.text = front ++ (before ++ s.written span) ++ after := by
    rw [htext, ← hbody, hsplit]
    simp only [List.append_assoc]
  have hfollowing : s.following span = after := by
    rw [following, hstop]
    generalize s.written span = part at hwhole ⊢
    rw [hwhole, dropBytes_byteSize_append]
  refine ⟨front, before, hfront.symm, ?_, hspan⟩
  rw [hfollowing, ← List.append_assoc]
  exact hwhole

theorem math_behind_front {parse : Markdown.Parser}
    (h : (s.passWith parse).fault = none) :
    ∀ m ∈ (s.passWith parse).events.filterMap Event.mathEvent?, s.bodyStart ≤ m.range.span.start := by
  rw [passWith_math h]
  intro m hm
  obtain ⟨n, -, hkind⟩ := List.mem_filterMap.mp hm
  obtain ⟨kind, -, rfl⟩ := Option.map_eq_some_iff.mp hkind
  exact Nat.le_add_left _ _

/-- The math that a pass without a fault reports is that of its nodes, in their
order, whatever nodes there are. It stands behind the front matter, which reports
none of its own. A node and what follows it are read from the whole document. -/
theorem math_reported (s : Source) (parse : Markdown.Parser)
    (h : (s.passWith parse).fault = none) :
    (∀ found, s.Reported (parse.nodes s.body) found ↔
      found = (s.passWith parse).events.filterMap Event.mathEvent?) ∧
    (∀ f, s.front? = some f → (s.frontMatter f).filterMap Event.mathEvent? = [] ∧
      ∀ m ∈ (s.passWith parse).events.filterMap Event.mathEvent?,
        f.span.stop ≤ m.range.span.start) ∧
    ∀ span : Span, span.Fits s.body → ∃ front before, byteSize front = s.bodyStart ∧
      s.document.text = front ++ (before ++ s.written span ++ s.following span) ∧
      span = ⟨byteSize before, byteSize before + byteSize (s.written span)⟩ := by
  refine ⟨fun found => ?_, fun f hf => ⟨frontMatter_no_math f, ?_⟩, fun span => text_around⟩
  case refine_1 => rw [reported_iff, passWith_math h]
  case refine_2 =>
    have hstart : s.bodyStart = f.span.stop := by
      rw [bodyStart, hf]
      rfl
    rw [← hstart]
    exact math_behind_front h

/-- Dollars in the front matter, around two bytes, before a digit with and without
a backslash, around white space, and in pairs. -/
theorem math_reported_deck :
    let s : Source := ⟨⟨"---\nt: $x$\n---\n$é$ $a$1 $a\\$1 $ a$ $$ b $$\n\n$$\n1\n$$\n".toList⟩,
      Registry.builtin⟩
    let parse := Markdown.parse .slideDeck
    (s.passWith parse).fault = none ∧
      s.Reported (parse.nodes s.body) ((s.passWith parse).events.filterMap Event.mathEvent?) ∧
      ((s.passWith parse).events.filterMap Event.mathEvent?).map
          (fun e => (e.kind, e.range.span)) =
        [(.inline, ⟨15, 19⟩), (.inline, ⟨25, 29⟩), (.block, ⟨36, 43⟩), (.block, ⟨45, 52⟩)] := by
  intro s parse
  have hfault : (s.passWith parse).fault = none := by decide +kernel
  exact ⟨hfault, ((math_reported s parse hfault).1 _).mpr rfl, by decide +kernel⟩

end Source

end Deck

end SlideDirectives
