import SlideDirectives.Deck.Pass

/-!
# What a pass delivers

The visit of a tree delivers what its nodes do, in the order of the tree and up
to the first fault. So each event of a pass marks its start or its end, or comes
from the front matter, or from a node that is kept.
-/

set_option autoImplicit false

namespace SlideDirectives

namespace Markdown

theorem Tree.nodesOfAll_eq (ts : List Tree) : nodesOfAll ts = ts.flatMap nodes := by
  induction ts with
  | nil => rfl
  | cons t ts ih => rw [nodesOfAll, ih, List.flatMap_cons]

theorem Tree.nodes_group (ts : List Tree) : (group ts).nodes = ts.flatMap nodes := by
  rw [group, nodes, nodesOfAll_eq]
  rfl

theorem Node.nodes_tree (n : Node) : n.tree.nodes = [n] := by
  cases n <;> rfl

end Markdown

namespace Deck

open Text

namespace Delivery

theorem ofEvents_append (es : List Event) (d : Delivery) :
    (ofEvents es).append d = ⟨es ++ d.events, d.fault⟩ := rfl

theorem append_nothing (d : Delivery) : d.append (ofEvents []) = d := by
  obtain ⟨es, fault⟩ := d
  cases fault with
  | none => simp [append, ofEvents]
  | some f => rfl

theorem append_assoc (a b c : Delivery) : (a.append b).append c = a.append (b.append c) := by
  obtain ⟨es, fault⟩ := a
  cases fault with
  | some f => rfl
  | none =>
    obtain ⟨es', fault'⟩ := b
    cases fault' with
    | some f => rfl
    | none => simp [append]

theorem join_append (ds ds' : List Delivery) : join (ds ++ ds') = (join ds).append (join ds') := by
  induction ds with
  | nil => rfl
  | cons d ds ih => rw [List.cons_append, join, join, ih, append_assoc]

theorem join_ofEvents {α : Type} (f : α → List Event) (xs : List α) :
    join (xs.map fun x => ofEvents (f x)) = ofEvents (xs.flatMap f) := by
  induction xs with
  | nil => rfl
  | cons x xs ih =>
    rw [List.map_cons, join, ih, ofEvents_append, List.flatMap_cons]
    rfl

theorem mem_append {a b : Delivery} {e : Event} (h : e ∈ (a.append b).events) :
    e ∈ a.events ∨ e ∈ b.events := by
  unfold append at h
  split at h
  · exact Or.inl h
  · exact List.mem_append.mp h

theorem mem_join {ds : List Delivery} {e : Event} (h : e ∈ (join ds).events) :
    ∃ d ∈ ds, e ∈ d.events := by
  induction ds with
  | nil => cases h
  | cons d ds ih =>
    rcases mem_append h with h | h
    · exact ⟨d, by simp, h⟩
    · obtain ⟨d', hd', he⟩ := ih h
      exact ⟨d', by simp [hd'], he⟩

def closing (del : Delivery) : List Event :=
  if del.fault.isNone then [.endParse] else []

theorem mem_closing {del : Delivery} {e : Event} (h : e ∈ del.closing) : e = .endParse := by
  rw [closing] at h
  split at h
  · exact List.mem_singleton.mp h
  · cases h

theorem append_endParse (del : Delivery) :
    del.append (ofEvents [.endParse]) = ⟨del.events ++ del.closing, del.fault⟩ := by
  obtain ⟨es, fault⟩ := del
  cases fault with
  | none => rfl
  | some f => simp [append, closing]

end Delivery

namespace Source

variable {s : Source} {offset : Nat} {n : Markdown.Node} {e : Event}

section Visits

mutual

/-- A tree delivers its nodes one by one, in pre-order. -/
theorem visit_eq_join (s : Source) (offset : Nat) :
    ∀ t : Markdown.Tree, s.visit offset t = .join (t.nodes.map (s.node offset))
  | .node content span children => by
    rw [visit, visitAll_eq_join s offset children, Markdown.Tree.nodes, List.map_append,
      Delivery.join_append]
    cases content.node? span with
    | none => rfl
    | some n =>
      change _ = ((s.node offset n).append (.ofEvents [])).append _
      rw [Delivery.append_nothing]
      rfl

theorem visitAll_eq_join (s : Source) (offset : Nat) : ∀ ts : List Markdown.Tree,
    s.visitAll offset ts = .join ((Markdown.Tree.nodesOfAll ts).map (s.node offset))
  | [] => rfl
  | t :: ts => by
    rw [visitAll, visit_eq_join s offset t, visitAll_eq_join s offset ts,
      Markdown.Tree.nodesOfAll, List.map_append, Delivery.join_append]

end

def inner (parse : Markdown.Parser) (s : Source) : Delivery :=
  s.visitParsed s.bodyStart (parse s.body)

theorem inner_cases (parse : Markdown.Parser) (s : Source) :
    s.inner parse = .join ((parse.nodes s.body).map (s.node s.bodyStart)) ∨
      parse.nodes s.body = [] ∧ ∃ m, s.inner parse = ⟨[], some (.ofMessage m)⟩ := by
  rw [inner, Markdown.Parser.nodes]
  cases parse s.body with
  | ok t => exact .inl (s.visit_eq_join s.bodyStart t)
  | error m => exact .inr ⟨rfl, m, rfl⟩

theorem passWith_eq (parse : Markdown.Parser) (s : Source) :
    s.passWith parse = ⟨.startParse :: ((s.front?.map s.frontMatter).getD [] ++
      (s.inner parse).events ++ (s.inner parse).closing), (s.inner parse).fault⟩ := by
  rw [passWith, passOver, ← inner, Delivery.append_endParse]
  simp [Delivery.append, Delivery.ofEvents]

theorem passWith_error {parse : Markdown.Parser} {m : Markdown.Message}
    (h : parse s.body = .error m) :
    s.passWith parse =
      ⟨.startParse :: (s.front?.map s.frontMatter).getD [], some (.ofMessage m)⟩ := by
  rw [passWith, passOver, h, visitParsed]
  simp [Delivery.append, Delivery.ofEvents]

end Visits

section Origins

def commentBody (s : Source) (offset : Nat) (c : Html.Comment) : Nat × List Char :=
  let content := c.content.shift offset
  let stripped := Html.stripPadding (s.document.textIn content)
  (content.start + stripped.1, stripped.2)

def commentEvent (s : Source) (offset : Nat) (c : Html.Comment) : CommentEvent :=
  let body := s.commentBody offset c
  ⟨s.document.rangeOf (c.span.shift offset), s.document.rangeOf (c.content.shift offset), body.2,
    s.document.rangeOf ⟨body.1, body.1 + byteSize body.2⟩⟩

theorem comment_eq (s : Source) (offset : Nat) (c : Html.Comment) :
    s.comment offset c = .comment (s.commentEvent offset c) ::
      s.directives (s.commentBody offset c).1 .comment (s.commentBody offset c).2 := rfl

inductive FromFront (s : Source) (f : FrontMatter) : Event → Prop where
  | frontMatter : FromFront s f (.frontMatter
      ⟨s.document.rangeOf f.span, s.document.textIn f.body, s.document.rangeOf f.body⟩)
  | directive {p : Yaml.Pair} (pair : p ∈ (Yaml.Outline.read (s.document.textIn f.body)).pairs) :
      FromFront s f (.directive (s.directive f.body.start .frontMatter p))

/-- The events of a node: a comment of it or a pair in its body, an image, or math. -/
inductive FromNode (s : Source) (offset : Nat) : Markdown.Node → Event → Prop where
  | comment {span : Span} {cs : List Html.Comment} {c : Html.Comment}
      (found : Html.comments (s.document.textIn (span.shift offset)) = .ok cs) (mem : c ∈ cs) :
      FromNode s offset (.html span) (.comment (s.commentEvent (span.shift offset).start c))
  | directive {span : Span} {cs : List Html.Comment} {c : Html.Comment} {p : Yaml.Pair}
      (found : Html.comments (s.document.textIn (span.shift offset)) = .ok cs) (mem : c ∈ cs)
      (pair : p ∈ (Yaml.Outline.read (s.commentBody (span.shift offset).start c).2).pairs) :
      FromNode s offset (.html span)
        (.directive (s.directive (s.commentBody (span.shift offset).start c).1 .comment p))
  | image {span : Span} {image : Markdown.Image} : FromNode s offset (.image span image)
      (.image ⟨image, s.document.textIn (span.shift offset),
        s.document.rangeOf (span.shift offset)⟩)
  | math {span : Span} : FromNode s offset (.math span)
      (.maybeMath ⟨.block, s.document.textIn (span.shift offset),
        s.document.rangeOf (span.shift offset)⟩)
  | inlineMath {span : Span} (kind : MathKind) : FromNode s offset (.inlineMath span)
      (.maybeMath ⟨kind, s.document.textIn (span.shift offset),
        s.document.rangeOf (span.shift offset)⟩)

theorem mem_frontMatter {f : FrontMatter} (h : e ∈ s.frontMatter f) : s.FromFront f e := by
  rcases List.mem_cons.mp h with rfl | h
  · exact .frontMatter
  · obtain ⟨p, hp, rfl⟩ := List.mem_map.mp h
    exact .directive hp

theorem mem_node (h : e ∈ (s.node offset n).events) : s.FromNode offset n e := by
  cases n with
  | html span =>
    rw [node, fragment] at h
    split at h
    · rename_i cs hcs
      obtain ⟨c, hc, h⟩ := List.mem_flatMap.mp h
      rw [comment_eq] at h
      rcases List.mem_cons.mp h with rfl | h
      · exact .comment hcs hc
      · obtain ⟨p, hp, rfl⟩ := List.mem_map.mp h
        exact .directive hcs hc hp
    · cases h
  | image span image =>
    obtain rfl := List.mem_singleton.mp h
    exact .image
  | math span =>
    obtain rfl := List.mem_singleton.mp h
    exact .math
  | inlineMath span =>
    simp only [node, Delivery.ofEvents, inlineMath] at h
    split at h
    · obtain rfl := List.mem_singleton.mp h
      exact .inlineMath _
    · cases h

theorem mem_inner {parse : Markdown.Parser} (h : e ∈ (s.inner parse).events) :
    ∃ n ∈ parse.nodes s.body, s.FromNode s.bodyStart n e := by
  rcases inner_cases parse s with hinner | ⟨-, m, hinner⟩
  · rw [hinner] at h
    obtain ⟨d, hd, he⟩ := Delivery.mem_join h
    obtain ⟨n, hn, rfl⟩ := List.mem_map.mp hd
    exact ⟨n, hn, mem_node he⟩
  · rw [hinner] at h
    cases h

theorem mem_passWith {parse : Markdown.Parser} (h : e ∈ (s.passWith parse).events) :
    e = .startParse ∨ e = .endParse ∨ (∃ f, s.front? = some f ∧ s.FromFront f e) ∨
      ∃ n ∈ parse.nodes s.body, s.FromNode s.bodyStart n e := by
  rw [passWith_eq] at h
  rcases List.mem_cons.mp h with h | h
  · exact .inl h
  · rcases List.mem_append.mp h with h | h
    · rcases List.mem_append.mp h with h | h
      · cases hf : s.front? with
        | none =>
          rw [hf] at h
          cases h
        | some f =>
          rw [hf] at h
          exact .inr (.inr (.inl ⟨f, rfl, mem_frontMatter h⟩))
      · exact .inr (.inr (.inr (mem_inner h)))
    · exact .inr (.inl (Delivery.mem_closing h))

theorem FromFront.isBound {f : FrontMatter} (h : s.FromFront f e) : e.isBound = false := by
  cases h <;> rfl

/-- Only the pass itself delivers its start and its end. -/
theorem FromNode.isBound (h : s.FromNode offset n e) : e.isBound = false := by
  cases h <;> rfl

theorem inner_isBound (parse : Markdown.Parser) (s : Source) :
    ∀ e ∈ (s.inner parse).events, e.isBound = false := by
  intro e he
  obtain ⟨n, -, hfrom⟩ := mem_inner he
  exact hfrom.isBound

end Origins

end Source

end Deck

end SlideDirectives
