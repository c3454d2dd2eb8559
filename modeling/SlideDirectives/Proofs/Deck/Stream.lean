import Mathlib.Computability.Language
import SlideDirectives.Proofs.Deck.Broadcast
import SlideDirectives.Proofs.Deck.Shift

/-!
# The grammar of event streams

What a pass delivers is a word of a regular language: between the two events
that bound it the front matter comes first, then images, math and comments, and
directives only stand behind the front matter or the comment that they come
from. A fault cuts a word short.
-/

set_option autoImplicit false

namespace SlideDirectives.Deck

open Text
open scoped Computability

namespace Stream

def one (p : Event → Prop) : Language Event := {w | ∃ e, p e ∧ w = [e]}

def directives (context : Context) : Language Event :=
  (one fun e => ∃ d : DirectiveEvent, e = .directive d ∧ d.context = context)∗

def front : Language Event :=
  one (fun e => ∃ f, e = .frontMatter f) * directives .frontMatter

def group : Language Event :=
  one (fun e => ∃ i, e = .image i) + one (fun e => ∃ m, e = .maybeMath m) +
    one (fun e => ∃ c, e = .comment c) * directives .comment

def inner : Language Event := (1 + front) * group∗

def whole : Language Event :=
  one (· = .startParse) * inner * one (· = .endParse)

section Words

variable {l : Language Event} {es es' : List Event}

theorem mem_one {p : Event → Prop} {e : Event} (h : p e) : [e] ∈ one p :=
  ⟨e, h, rfl⟩

theorem mem_kstar_of_mem (h : es ∈ l) : es ∈ l∗ :=
  (le_kstar : l ≤ l∗) h

theorem append_mem_kstar (h : es ∈ l∗) (h' : es' ∈ l∗) : es ++ es' ∈ l∗ := by
  have hmul : es ++ es' ∈ l∗ * l∗ := Language.append_mem_mul h h'
  rwa [kstar_mul_kstar] at hmul

theorem flatMap_mem_kstar {α : Type} {xs : List α} {f : α → List Event}
    (h : ∀ x ∈ xs, f x ∈ l∗) : xs.flatMap f ∈ l∗ := by
  induction xs with
  | nil => exact Language.nil_mem_kstar l
  | cons x xs ih =>
    exact append_mem_kstar (h x List.mem_cons_self) (ih fun y hy => h y (List.mem_cons_of_mem x hy))

theorem join_mem_kstar {ds : List Delivery} (h : ∀ d ∈ ds, d.events ∈ l∗) :
    (Delivery.join ds).events ∈ l∗ := by
  induction ds with
  | nil => exact Language.nil_mem_kstar l
  | cons d ds ih =>
    have hd : d.events ∈ l∗ := h d List.mem_cons_self
    have hds := ih fun d' hd' => h d' (List.mem_cons_of_mem d hd')
    rw [Delivery.join, Delivery.append]
    split
    · exact hd
    · exact append_mem_kstar hd hds

theorem whole_of_inner (h : es ∈ inner) : .startParse :: (es ++ [.endParse]) ∈ whole := by
  have hstart := Language.append_mem_mul (mem_one (p := (· = Event.startParse)) rfl) h
  exact Language.append_mem_mul hstart (mem_one rfl)

end Words

/-- A stream if the pass succeeds, with each bound once; else what is there of
one before its end. -/
def Delivers (d : Delivery) : Prop :=
  match d.fault with
  | none => d.events ∈ whole ∧ d.events.count .startParse = 1 ∧ d.events.count .endParse = 1
  | some _ => (∃ rest, rest ≠ [] ∧ d.events ++ rest ∈ whole) ∧
      d.events.head? = some .startParse ∧ .endParse ∉ d.events

end Stream

namespace Source

variable {s : Source}

theorem directives_mem_stream (offset : Nat) (context : Context) (body : List Char) :
    s.directives offset context body ∈ Stream.directives context := by
  rw [directives, List.map_eq_flatMap]
  exact Stream.flatMap_mem_kstar fun p _ =>
    Stream.mem_kstar_of_mem (Stream.mem_one ⟨s.directive offset context p, rfl, rfl⟩)

theorem frontMatter_mem_stream (f : FrontMatter) : s.frontMatter f ∈ Stream.front :=
  Language.append_mem_mul (Stream.mem_one ⟨_, rfl⟩) (directives_mem_stream _ _ _)

theorem comment_mem_stream (offset : Nat) (c : Html.Comment) :
    s.comment offset c ∈ Stream.group := by
  rw [comment]
  generalize Html.stripPadding (s.document.textIn (c.content.shift offset)) = stripped
  obtain ⟨padding, body⟩ := stripped
  exact .inr (Language.append_mem_mul (Stream.mem_one ⟨_, rfl⟩) (directives_mem_stream _ _ _))

theorem math_mem_stream (kind : MathKind) (span : Span) :
    [s.math kind span] ∈ Stream.group :=
  .inl (.inr (Stream.mem_one ⟨_, rfl⟩))

theorem node_mem_stream (offset : Nat) (n : Markdown.Node) :
    (s.node offset n).events ∈ Stream.group∗ := by
  cases n with
  | html span =>
    rw [node, fragment]
    split
    · exact Stream.flatMap_mem_kstar fun c _ =>
        Stream.mem_kstar_of_mem (comment_mem_stream _ c)
    · exact Language.nil_mem_kstar _
  | image span image =>
    exact Stream.mem_kstar_of_mem (.inl (.inl (Stream.mem_one ⟨_, rfl⟩)))
  | math span => exact Stream.mem_kstar_of_mem (math_mem_stream _ _)
  | inlineMath span =>
    simp only [node, Delivery.ofEvents, inlineMath]
    split
    · exact Stream.mem_kstar_of_mem (math_mem_stream _ _)
    · exact Language.nil_mem_kstar _

theorem inner_mem_stream (parse : Markdown.Parser) :
    (s.front?.map s.frontMatter).getD [] ++ (s.inner parse).events ∈ Stream.inner := by
  have hfront : (s.front?.map s.frontMatter).getD [] ∈ 1 + Stream.front := by
    cases s.front? with
    | none => exact .inl rfl
    | some f => exact .inr (frontMatter_mem_stream f)
  refine Language.append_mem_mul hfront ?_
  rcases inner_cases parse s with hinner | ⟨-, m, hinner⟩
  · rw [hinner]
    refine Stream.join_mem_kstar fun d hd => ?_
    obtain ⟨n, -, rfl⟩ := List.mem_map.mp hd
    exact node_mem_stream _ n
  · rw [hinner]
    exact Language.nil_mem_kstar _

theorem inner_not_isBound (parse : Markdown.Parser) :
    ∀ e ∈ (s.front?.map s.frontMatter).getD [] ++ (s.inner parse).events, e.isBound = false := by
  intro e he
  rcases List.mem_append.mp he with he | he
  · cases hfront : s.front? with
    | none => simp [hfront] at he
    | some f =>
      rw [hfront] at he
      exact (mem_frontMatter he).isBound
  · exact inner_isBound parse s e he

theorem passWith_delivers (s : Source) (parse : Markdown.Parser) :
    Stream.Delivers (s.passWith parse) := by
  have hinner := inner_mem_stream (s := s) parse
  have hbound := inner_not_isBound (s := s) parse
  rw [passWith_eq]
  generalize (s.front?.map s.frontMatter).getD [] ++ (s.inner parse).events = es at hinner hbound
  have hwhole : .startParse :: (es ++ [.endParse]) ∈ Stream.whole := Stream.whole_of_inner hinner
  have hstart : .startParse ∉ es := fun h => Bool.noConfusion (hbound _ h)
  have hend : .endParse ∉ es := fun h => Bool.noConfusion (hbound _ h)
  rw [Stream.Delivers]
  cases hfault : (s.inner parse).fault with
  | none =>
    simp only [Delivery.closing, hfault]
    refine ⟨hwhole, ?_, ?_⟩
    · simp [List.count_eq_zero.mpr hstart]
    · simp [List.count_eq_zero.mpr hend]
  | some fault =>
    simp only [Delivery.closing, hfault]
    refine ⟨⟨[.endParse], by simp, ?_⟩, rfl, ?_⟩
    · simpa using hwhole
    · simpa using hend

/-- Every pass delivers a stream, cut short by a fault, and tells all of it to
each of its listeners, however many there are. -/
theorem passWith_streams (s : Source) (parse : Markdown.Parser) :
    Stream.Delivers (s.passWith parse) ∧
      ∀ (σ : Type) (ls : List (Listener σ)), (s.tellPass parse).run ls =
        ((s.passWith parse).outcome, ls.map (·.tellAll (s.passWith parse).events)) :=
  ⟨s.passWith_delivers parse, fun _ ls => s.tells_pass parse ls⟩

end Source

end SlideDirectives.Deck
