import SlideDirectives.Proofs.Deck.Grounded

/-!
# What follows front matter

The pass over a document with front matter is the pass over what follows it,
with every span moved by the size of the front matter, behind events that the
front matter alone decides.
-/

set_option autoImplicit false

namespace SlideDirectives.Deck

open Text

/-- The range in the whole document of what has the given range in the part
that starts at byte `n`. -/
def Ranged.moved (d : Document) (n : Nat) (r : Ranged) : Ranged :=
  ⟨r.text, d.rangeOf (r.range.span.shift n)⟩

/-- The event in the whole document; only its ranges change. -/
def Event.moved (d : Document) (n : Nat) : Event → Event
  | .startParse => .startParse
  | .frontMatter e => .frontMatter
      ⟨d.rangeOf (e.range.span.shift n), e.body, d.rangeOf (e.bodyRange.span.shift n)⟩
  | .comment e => .comment
      ⟨d.rangeOf (e.range.span.shift n), d.rangeOf (e.contentRange.span.shift n), e.body,
        d.rangeOf (e.bodyRange.span.shift n)⟩
  | .directive e => .directive
      ⟨e.definition, e.key.moved d n, e.value.map (Ranged.moved d n), e.isScoped, e.context⟩
  | .image e => .image ⟨e.image, e.body, d.rangeOf (e.range.span.shift n)⟩
  | .maybeMath e => .maybeMath ⟨e.kind, e.body, d.rangeOf (e.range.span.shift n)⟩
  | .endParse => .endParse

def Delivery.moved (d : Document) (n : Nat) (del : Delivery) : Delivery :=
  ⟨del.events.map (Event.moved d n), del.fault⟩

theorem Delivery.moved_append (d : Document) (n : Nat) (a b : Delivery) :
    (a.append b).moved d n = (a.moved d n).append (b.moved d n) := by
  obtain ⟨es, fault⟩ := a
  cases fault with
  | none => simp only [append, moved, List.map_append]
  | some f => rfl

theorem Delivery.moved_join (d : Document) (n : Nat) (ds : List Delivery) :
    (join ds).moved d n = join (ds.map (Delivery.moved d n)) := by
  induction ds with
  | nil => rfl
  | cons a ds ih => rw [join, moved_append, ih]; rfl

namespace Source

def behind (s : Source) (n : Nat) : Source :=
  ⟨⟨dropBytes n s.document.text⟩, s.registry⟩

variable {s : Source} {n : Nat}

theorem textIn_behind (h : isBoundary s.document.text n = true) (span : Span) :
    (s.behind n).document.textIn span = s.document.textIn (span.shift n) :=
  (slice_shift h span).symm

theorem ranged_behind (offset : Nat) (i : Yaml.Item) :
    s.ranged (offset + n) i = ((s.behind n).ranged offset i).moved s.document n := by
  simp only [ranged, Ranged.moved, Document.rangeOf, Span.shift_shift]

theorem directives_behind (offset : Nat) (context : Context) (body : List Char) :
    s.directives (offset + n) context body =
      ((s.behind n).directives offset context body).map (Event.moved s.document n) := by
  simp only [directives, List.map_map]
  apply List.map_congr_left
  intro p hp
  have hvalue : p.value.map (s.ranged (offset + n)) =
      (p.value.map ((s.behind n).ranged offset)).map (Ranged.moved s.document n) := by
    rw [Option.map_map]
    exact Option.map_congr fun i _ => ranged_behind offset i
  simp only [Function.comp_apply, Event.moved, directive, ranged_behind offset p.key, hvalue]
  rfl

theorem comment_behind (h : isBoundary s.document.text n = true) (offset : Nat) (c : Html.Comment) :
    s.comment (offset + n) c =
      ((s.behind n).comment offset c).map (Event.moved s.document n) := by
  have hcontent : s.document.textIn (c.content.shift (offset + n)) =
      (s.behind n).document.textIn (c.content.shift offset) := by
    rw [textIn_behind h, Span.shift_shift]
  simp only [comment, hcontent, List.map_cons]
  generalize Html.stripPadding ((s.behind n).document.textIn (c.content.shift offset)) = padding
  have hstart : (c.content.shift (offset + n)).start + padding.1 =
      (c.content.shift offset).start + padding.1 + n := by
    simp only [Span.shift_start]
    omega
  rw [hstart, directives_behind]
  congr 1
  simp only [Event.moved, Document.rangeOf, Span.shift_shift]
  simp only [Span.shift]
  congr 4
  all_goals omega

theorem fragment_behind (h : isBoundary s.document.text n = true) (span : Span) :
    s.fragment (span.shift n) = ((s.behind n).fragment span).moved s.document n := by
  simp only [fragment, textIn_behind h]
  cases Html.comments (s.document.textIn (span.shift n)) with
  | error tag => rfl
  | ok cs =>
    have hcomment : s.comment (span.start + n) =
        fun c => ((s.behind n).comment span.start c).map (Event.moved s.document n) :=
      funext (comment_behind h span.start)
    simp only [Delivery.moved, Delivery.ofEvents, List.map_flatMap, Span.shift_start, hcomment]

theorem node_behind (h : isBoundary s.document.text n = true) (offset : Nat)
    (x : Markdown.Node) :
    s.node (offset + n) x = ((s.behind n).node offset x).moved s.document n := by
  cases x with
  | html span =>
    rw [node, node, ← Span.shift_shift]
    exact fragment_behind h (span.shift offset)
  | image span image =>
    simp only [node, ← Span.shift_shift, ← textIn_behind h]
    rfl
  | math span =>
    simp only [node, math, ← Span.shift_shift, ← textIn_behind h]
    rfl
  | inlineMath span =>
    have hdrop : dropBytes (span.shift (offset + n)).stop s.document.text =
        dropBytes (span.shift offset).stop (s.behind n).document.text := by
      rw [Span.shift_stop, Span.shift_stop, ← Nat.add_assoc, Nat.add_comm, dropBytes_add h]
      rfl
    simp only [node, inlineMath, hdrop]
    rw [← Span.shift_shift, ← textIn_behind h]
    split
    · simp only [math, ← textIn_behind h]
      rfl
    · rfl

def upTo (s : Source) (n : Nat) : Source :=
  ⟨⟨takeBytes n s.document.text⟩, s.registry⟩

theorem rangeOf_upTo {span : Span} (h : span.start ≤ span.stop) (hn : span.stop ≤ n) :
    (s.upTo n).document.rangeOf span = s.document.rangeOf span := by
  simp only [Document.rangeOf, Document.positionAt_eq, upTo, takeBytes_takeBytes hn,
    takeBytes_takeBytes (Nat.le_trans h hn)]

theorem textIn_upTo {span : Span} (hn : isBoundary s.document.text n = true)
    (h : span.Fits s.document.text) (hs : span.stop ≤ n) :
    (s.upTo n).document.textIn span = s.document.textIn span := by
  obtain ⟨before, after, htext, rfl⟩ := isBoundary_iff.mp hn
  simp only [Document.textIn, upTo, htext, takeBytes_byteSize_append] at h ⊢
  exact ((h.of_append hs).holds.append_right after).slice_eq.symm

theorem directives_upTo {offset : Nat} {body : List Char} (context : Context)
    (h : offset + byteSize body ≤ n) :
    (s.upTo n).directives offset context body = s.directives offset context body := by
  have hrange : ∀ span : Span, span.Fits body →
      (s.upTo n).document.rangeOf (span.shift offset) = s.document.rangeOf (span.shift offset) := by
    intro span hspan
    have hordered := hspan.ordered
    have hbounded := hspan.bounded
    apply rangeOf_upTo
    · simp only [Span.shift]
      omega
    · simp only [Span.shift]
      omega
  apply List.map_congr_left
  intro p hp
  obtain ⟨e, he, hof⟩ := Yaml.Outline.mem_pairs_readWith hp
  have hfit := Yaml.Entry.entries_fit body e he
  have hkey : p.key.span.Fits body := by
    rw [hof.key]
    exact hfit.key
  have hvalue : p.value.map ((s.upTo n).ranged offset) = p.value.map (s.ranged offset) := by
    apply Option.map_congr
    intro item hitem
    have hspan : e.value = some item.span := by
      rw [← hof.value, hitem]
      rfl
    simp only [ranged, hrange item.span (hfit.value item.span hspan)]
  simp only [directive, hvalue]
  simp only [ranged, hrange p.key.span hkey]
  rfl

variable {f : FrontMatter}

theorem frontMatter_upTo (h : s.front? = some f) :
    (s.upTo f.span.stop).frontMatter f = s.frontMatter f := by
  obtain ⟨hspan, hbody, hle⟩ := FrontMatter.find?_holds h
  have htext := textIn_upTo hspan.stopBoundary hbody hle
  have hsize : f.body.start + byteSize (s.document.textIn f.body) ≤ f.span.stop := by
    rw [Document.textIn, hbody.start_add_byteSize]
    exact hle
  simp only [frontMatter, htext, rangeOf_upTo hspan.ordered (Nat.le_refl _),
    rangeOf_upTo hbody.ordered hle, directives_upTo .frontMatter hsize]

/-- The visit in the part behind a boundary, moved to the whole document. -/
theorem visit_behind (h : isBoundary s.document.text n = true) (t : Markdown.Tree) :
    s.visit n t = ((s.behind n).visit 0 t).moved s.document n := by
  have hnode : s.node n = fun x => ((s.behind n).node 0 x).moved s.document n := by
    funext x
    rw [← node_behind h, Nat.zero_add]
  rw [visit_eq_join, visit_eq_join, Delivery.moved_join, List.map_map, hnode]
  rfl

theorem inner_behind (parse : Markdown.Parser) (h : s.front? = some f) :
    s.inner parse = ((s.behind f.span.stop).inner parse).moved s.document f.span.stop := by
  have hnone : (s.behind f.span.stop).front? = none := FrontMatter.find?_rest h
  have hbody : (s.behind f.span.stop).body = s.body := by
    simp only [body, bodyStart, hnone, h, Option.map_none, Option.map_some, Option.getD_none,
      Option.getD_some, dropBytes_zero]
    rfl
  have hstart : s.bodyStart = f.span.stop := by rw [bodyStart, h]; rfl
  have hrest : (s.behind f.span.stop).bodyStart = 0 := by rw [bodyStart, hnone]; rfl
  rw [inner, inner, hbody, hstart, hrest]
  cases parse s.body with
  | ok t => exact visit_behind (FrontMatter.find?_holds h).1.stopBoundary t
  | error m => rfl

theorem positionAt_behind (h : s.front? = some f) {o : Nat} (ho : 0 < o)
    (hle : o ≤ byteSize (s.behind f.span.stop).document.text) :
    s.document.positionAt (f.span.stop + o) =
      ((s.behind f.span.stop).document.positionAt o).down
        ((takeBytes f.span.stop s.document.text).count '\n') := by
  obtain ⟨opening, body, closing, rest, htext, hf, hrest⟩ := FrontMatter.find?_parts h
  have hstop : f.span.stop = byteSize (opening ++ (body ++ closing)) := by
    rw [hf]
    simp only [byteSize_append]
    omega
  have hsplit : s.document.text = opening ++ (body ++ closing) ++ rest := by
    rw [htext]
    simp
  rcases hrest with rfl | ⟨after, rfl⟩
  · rw [behind, hstop, hsplit, dropBytes_byteSize_append] at hle
    have hzero : o ≤ 0 := hle
    omega
  · have hmove := Document.positionAt_append_newline (opening ++ (body ++ closing)) after ho
    simp only [behind, hstop, hsplit, dropBytes_byteSize_append, takeBytes_byteSize_append]
    rw [← hmove, ← hsplit]

/-- The pass over a document with front matter is what the front matter alone
decides and, moved behind it, the pass over the rest. The rest has no front
matter of its own, faults carry over, and past its newline the rest only has
its lines moved down. -/
theorem passWith_behind_frontMatter (s : Source) (parse : Markdown.Parser)
    {f : FrontMatter} (h : s.front? = some f) :
    let rest := s.behind f.span.stop
    rest.front? = none ∧
    (s.passWith parse).fault = (rest.passWith parse).fault ∧
    (∃ (e : FrontMatterEvent) (directives : List DirectiveEvent),
      s.frontMatter f = .frontMatter e :: directives.map .directive) ∧
    (s.upTo f.span.stop).frontMatter f = s.frontMatter f ∧
    (∃ inner, (∀ e ∈ inner, e.isBound = false) ∧
      (rest.passWith parse).events =
        .startParse :: (inner ++ (rest.passWith parse).closing) ∧
      (s.passWith parse).events =
        .startParse :: (s.frontMatter f ++ inner.map (Event.moved s.document f.span.stop) ++
          (rest.passWith parse).closing)) ∧
    ∀ o, 0 < o → o ≤ byteSize rest.document.text →
      s.document.positionAt (f.span.stop + o) =
        (rest.document.positionAt o).down
          ((takeBytes f.span.stop s.document.text).count '\n') := by
  intro rest
  have hnone : rest.front? = none := FrontMatter.find?_rest h
  have hinner := inner_behind parse h
  refine ⟨hnone, ?_, ?_, frontMatter_upTo h, ?_, fun o => positionAt_behind h⟩
  · rw [passWith_eq, passWith_eq, hinner]
    rfl
  · refine ⟨⟨s.document.rangeOf f.span, s.document.textIn f.body, s.document.rangeOf f.body⟩,
      (Yaml.Outline.read (s.document.textIn f.body)).pairs.map
        (s.directive f.body.start .frontMatter), ?_⟩
    rw [List.map_map]
    rfl
  · refine ⟨(rest.inner parse).events, inner_isBound parse rest, ?_, ?_⟩
    · rw [passWith_eq parse rest, hnone]
      rfl
    · rw [passWith_eq parse rest, passWith_eq parse s, h, hinner]
      rfl

/-- A deck whose front matter has a quoted value and whose rest has a comment,
an image and math. -/
theorem passWith_behind_frontMatter_deck :
    let s : Source :=
      ⟨⟨"---\ntheme: 'é'\n---\n<!-- paginate: true -->\n\n![é](u) $x$".toList⟩,
        Registry.builtin⟩
    let parse : Markdown.Parser := fun _ => .ok (.group [.node .html (some ⟨1, 24⟩) [],
      .group [.node (.image ⟨['u'], ['é'], none⟩) (some ⟨26, 34⟩) [],
        .node .inlineMath (some ⟨35, 38⟩) []]])
    s.front? = some ⟨⟨0, 19⟩, ⟨4, 16⟩⟩ ∧
      (s.passWith parse).fault = ((s.behind 19).passWith parse).fault ∧
      s.document.positionAt 20 = ((s.behind 19).document.positionAt 1).down 2 := by
  intro s parse
  have hfront : s.front? = some ⟨⟨0, 19⟩, ⟨4, 16⟩⟩ := by decide
  obtain ⟨-, hfault, -, -, -, hposition⟩ := passWith_behind_frontMatter s parse hfront
  exact ⟨hfront, hfault, hposition 1 (by decide) (by decide)⟩

end Source

end SlideDirectives.Deck
