import SlideDirectives.Proofs.Deck.Visit
import SlideDirectives.Proofs.FrontMatter.Grammar
import SlideDirectives.Proofs.Html.CommentPlace
import SlideDirectives.Proofs.Text.Resolve
import SlideDirectives.Proofs.Yaml.PairPlace

/-!
# Every range addresses the text

Body, node, comment, padding and pair each have offsets of their own. Added
up, they give spans that fit the text of the document, so positions and
offsets agree, and what an event quotes is what stands under its range.
-/

set_option autoImplicit false

namespace SlideDirectives.Deck

open Text

/-- A span clamped to the text of the document. A pass only adds offsets up, so
that there is nothing to clamp is a fact about its sums. -/
def clamp (d : Document) (s : Span) : Span :=
  let stop := min s.stop (byteSize d.text)
  ⟨min s.start stop, stop⟩

/-- The span fits the text, the positions are those of its ends, and
they lead back to its ends. -/
structure Grounded (d : Document) (r : Range) : Prop where
  fits : r.span.Fits d.text
  clamped : clamp d r.span = r.span
  start : r.start = d.positionAt r.span.start
  stop : r.stop = d.positionAt r.span.stop
  startBack : d.offsetAt r.start = r.span.start
  stopBack : d.offsetAt r.stop = r.span.stop

theorem grounded_rangeOf {d : Document} {s : Span} (h : s.Fits d.text) :
    Grounded d (d.rangeOf s) := by
  refine ⟨h, ?_, rfl, rfl, d.offsetAt_positionAt h.startBoundary,
    d.offsetAt_positionAt h.stopBoundary⟩
  have ho := h.ordered
  have hb := h.bounded
  change clamp d s = s
  simp only [clamp, Nat.min_eq_left hb, Nat.min_eq_left ho]

def Event.ranges : Event → List Range
  | .startParse => []
  | .frontMatter e => [e.range, e.bodyRange]
  | .comment e => [e.range, e.contentRange, e.bodyRange]
  | .directive e => e.key.range :: (e.value.map Ranged.range).toList
  | .image e => [e.range]
  | .maybeMath e => [e.range]
  | .endParse => []

/-- The key is the string that the written text decodes to if it is quoted, and
the written text itself if it is not quoted or does not decode to a string. -/
def SpelledAs (raw key : List Char) : Prop :=
  (raw.head?.any Yaml.Entry.isQuote = true ∧ Yaml.decode raw = .ok (.string key)) ∨
    (key = raw ∧ (raw.head?.any Yaml.Entry.isQuote = true →
      ∀ text, Yaml.decode raw ≠ .ok (.string text)))

def Event.Quotes (d : Document) : Event → Prop
  | .startParse => True
  | .frontMatter e => e.body = slice d.text e.bodyRange.span
  | .comment e => e.body = slice d.text e.bodyRange.span
  | .directive e => SpelledAs (slice d.text e.key.range.span) e.key.text
  | .image e => e.body = slice d.text e.range.span
  | .maybeMath e => e.body = slice d.text e.range.span
  | .endParse => True

structure Event.Addresses (d : Document) (e : Event) : Prop where
  ranges : ∀ r ∈ e.ranges, Grounded d r
  quotes : e.Quotes d

theorem Event.Addresses.startParse (d : Document) : Event.Addresses d .startParse :=
  ⟨by simp [Event.ranges], trivial⟩

theorem Event.Addresses.endParse (d : Document) : Event.Addresses d .endParse :=
  ⟨by simp [Event.ranges], trivial⟩

namespace Source

variable {s : Source} {offset : Nat} {n : Markdown.Node} {e : Event}

theorem isBoundary_bodyStart (s : Source) : isBoundary s.document.text s.bodyStart = true := by
  unfold bodyStart
  cases h : s.front? with
  | none => exact isBoundary_zero _
  | some f => exact (FrontMatter.find?_holds h).1.stopBoundary

theorem body_fits {span : Span} (h : span.Fits s.body) :
    (span.shift s.bodyStart).Fits s.document.text := by
  obtain ⟨before, after, htext, hstart⟩ := isBoundary_iff.mp s.isBoundary_bodyStart
  have hbody : s.body = after := by
    rw [body, htext, hstart, dropBytes_byteSize_append]
  rw [hbody] at h
  rw [htext, hstart]
  exact h.behind before

theorem directive_addresses {body : List Char} {context : Context} {p : Yaml.Pair}
    (h : Holds s.document.text ⟨offset, offset + byteSize body⟩ body)
    (hp : p ∈ (Yaml.Outline.read body).pairs) :
    Event.Addresses s.document (.directive (s.directive offset context p)) := by
  obtain ⟨e, he, hof⟩ := Yaml.Outline.mem_pairs_readWith hp
  have hfit := Yaml.Entry.entries_fit body e he
  have hkey := h.shift hfit.key.holds
  constructor
  · intro r hr
    rcases List.mem_cons.mp hr with rfl | hr
    · simp only [Source.directive, ranged, hof.key]
      exact grounded_rangeOf hkey.fits
    · simp only [Source.directive, Option.mem_toList, Option.map_eq_some_iff] at hr
      obtain ⟨v, ⟨item, hitem, rfl⟩, rfl⟩ := hr
      have hvalue : e.value = some item.span := by rw [← hof.value, hitem]; rfl
      exact grounded_rangeOf (h.shift (hfit.value item.span hvalue).holds).fits
  · change SpelledAs (slice s.document.text (p.key.span.shift offset)) p.key.text
    rw [hof.key, hkey.slice_eq]
    exact Yaml.Outline.unquote_cases Yaml.decode (slice body e.key)

theorem FromFront.addresses {f : FrontMatter} (hf : s.front? = some f) (h : s.FromFront f e) :
    e.Addresses s.document := by
  obtain ⟨hspan, hbody, -⟩ := FrontMatter.find?_holds hf
  cases h with
  | frontMatter =>
    constructor
    · intro r hr
      simp only [Event.ranges, List.mem_cons, List.not_mem_nil, or_false] at hr
      rcases hr with rfl | rfl
      · exact grounded_rangeOf hspan
      · exact grounded_rangeOf hbody
    · rfl
  | directive pair =>
    refine directive_addresses ?_ pair
    rw [Document.textIn, hbody.start_add_byteSize]
    exact hbody.holds

theorem commentBody_holds {span : Span} {cs : List Html.Comment} {c : Html.Comment}
    (h : span.Fits s.document.text) (found : Html.comments (s.document.textIn span) = .ok cs)
    (mem : c ∈ cs) :
    (c.content.shift span.start).Fits s.document.text ∧
      Holds s.document.text ⟨(s.commentBody span.start c).1,
        (s.commentBody span.start c).1 + byteSize (s.commentBody span.start c).2⟩
        (s.commentBody span.start c).2 := by
  have hfits : c.Fits (slice s.document.text span) := Html.comments_fit found c mem
  have hcontent := h.holds.shift hfits.content.holds
  have hbody := hcontent.shift (Html.stripPadding_holds _)
  have htext : s.document.textIn (c.content.shift span.start) =
      slice (slice s.document.text span) c.content := hcontent.slice_eq
  refine ⟨hcontent.fits, ?_⟩
  simp only [commentBody, htext]
  generalize Html.stripPadding (slice (slice s.document.text span) c.content) = stripped at *
  simpa only [Span.shift, Nat.add_comm _ (c.content.start + span.start),
    ← Nat.add_assoc] using hbody

theorem FromNode.addresses (hn : (n.span.shift offset).Fits s.document.text)
    (h : s.FromNode offset n e) : e.Addresses s.document := by
  cases h with
  | comment found mem =>
    obtain ⟨hcontent, hbody⟩ := commentBody_holds hn found mem
    constructor
    · intro r hr
      simp only [Event.ranges, List.mem_cons, List.not_mem_nil, or_false] at hr
      rcases hr with rfl | rfl | rfl
      · exact grounded_rangeOf (hn.shift (Html.comments_fit found _ mem).span)
      · exact grounded_rangeOf hcontent
      · exact grounded_rangeOf hbody.fits
    · exact hbody.slice_eq.symm
  | directive found mem pair => exact directive_addresses (commentBody_holds hn found mem).2 pair
  | image | math | inlineMath =>
    constructor
    · intro r hr
      obtain rfl := List.mem_singleton.mp hr
      exact grounded_rangeOf hn
    · rfl

/-- Whatever nodes are found in the body, as long as they lie in it and cut no
character, every event of the pass addresses the text, also before a fault. -/
theorem passWith_addresses (s : Source) (parse : Markdown.Parser)
    (h : ∀ n ∈ parse.nodes s.body, n.span.Fits s.body) :
    ∀ e ∈ (s.passWith parse).events, e.Addresses s.document := by
  intro e he
  rcases mem_passWith he with rfl | rfl | ⟨f, hf, hfrom⟩ | ⟨n, hn, hfrom⟩
  · exact Event.Addresses.startParse _
  · exact Event.Addresses.endParse _
  · exact hfrom.addresses hf
  · exact hfrom.addresses (body_fits (h n hn))

/-- Spans, positions and quoted texts agree with the text of the document in
every event that a pass delivers. -/
theorem offsets_reconcile (s : Source) (parse : Markdown.Parser)
    (h : ∀ n ∈ parse.nodes s.body, n.span.Fits s.body) :
    ∀ e ∈ (s.passWith parse).events,
      (∀ r ∈ e.ranges,
        (r.span.start ≤ r.span.stop ∧ r.span.stop ≤ byteSize s.document.text) ∧
        (isBoundary s.document.text r.span.start = true ∧
          isBoundary s.document.text r.span.stop = true) ∧
        clamp s.document r.span = r.span ∧
        (r.start = s.document.positionAt r.span.start ∧
          r.stop = s.document.positionAt r.span.stop) ∧
        (s.document.offsetAt r.start = r.span.start ∧
          s.document.offsetAt r.stop = r.span.stop)) ∧
      e.Quotes s.document := by
  intro e he
  have ha := passWith_addresses s parse h e he
  refine ⟨?_, ha.quotes⟩
  intro r hr
  have hg := ha.ranges r hr
  exact ⟨⟨hg.fits.ordered, hg.fits.bounded⟩, ⟨hg.fits.startBoundary, hg.fits.stopBoundary⟩,
    hg.clamped, ⟨hg.start, hg.stop⟩, ⟨hg.startBack, hg.stopBack⟩⟩

/-- A deck with carriage returns, a quoted key and characters of two bytes, and
the nodes of its body. -/
theorem offsets_reconcile_quoted_key :
    let s : Source :=
      ⟨⟨"---\n'theme': é\n---\n<!--\r\n_class: lead -->\n\n![é](u) $x$".toList⟩, Registry.builtin⟩
    let parse : Markdown.Parser := fun _ => .ok (.group [.node .html (some ⟨1, 23⟩) [],
      .group [.node (.image ⟨['u'], ['é'], none⟩) (some ⟨25, 33⟩) [],
        .node .inlineMath (some ⟨34, 37⟩) []]])
    (∀ n ∈ parse.nodes s.body, n.span.Fits s.body) ∧
      ∀ e ∈ (s.passWith parse).events,
        (∀ r ∈ e.ranges, clamp s.document r.span = r.span ∧
          s.document.offsetAt r.start = r.span.start ∧ s.document.offsetAt r.stop = r.span.stop) ∧
        e.Quotes s.document := by
  intro s parse
  have hfit : ∀ n ∈ parse.nodes s.body, n.span.Fits s.body := by decide
  refine ⟨hfit, ?_⟩
  intro e he
  obtain ⟨hranges, hquotes⟩ := offsets_reconcile s parse hfit e he
  refine ⟨?_, hquotes⟩
  intro r hr
  obtain ⟨-, -, hclamp, -, hback⟩ := hranges r hr
  exact ⟨hclamp, hback⟩

end Source

end SlideDirectives.Deck
