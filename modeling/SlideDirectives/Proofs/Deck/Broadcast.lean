import SlideDirectives.Deck.Log
import SlideDirectives.Proofs.Deck.Visit

/-!
# Listeners hear what is delivered

A pass in front of listeners tells each of them the events of its delivery, all
of them and in order, and ends with the same fault. So it does not matter how
many listeners there are or what they make of what they hear.
-/

set_option autoImplicit false

namespace SlideDirectives.Deck

open Text

namespace Delivery

def outcome (d : Delivery) : Except Fault PUnit :=
  match d.fault with
  | some f => .error f
  | none => .ok ⟨⟩

end Delivery

section Tells

variable {σ : Type}

theorem Listener.tellAll_append (l : Listener σ) (es es' : List Event) :
    l.tellAll (es ++ es') = (l.tellAll es).tellAll es' :=
  List.foldl_append

/-- The part tells every listener the events of the delivery and ends as it does. -/
def Tells (part : Telling σ PUnit) (d : Delivery) : Prop :=
  ∀ ls : List (Listener σ), part.run ls = (d.outcome, ls.map (·.tellAll d.events))

theorem tells_emit (e : Event) : Tells (emit e : Telling σ PUnit) (.ofEvents [e]) :=
  fun _ => rfl

theorem tells_nothing : Tells (pure ⟨⟩ : Telling σ PUnit) (.ofEvents []) := by
  intro ls
  have hsame : ls.map (·.tellAll []) = ls := List.map_id ls
  change _ = (_, ls.map (·.tellAll []))
  rw [hsame]
  rfl

theorem tells_fault (f : Fault) : Tells (throw f : Telling σ PUnit) ⟨[], some f⟩ := by
  intro ls
  have hsame : ls.map (·.tellAll []) = ls := List.map_id ls
  change _ = (_, ls.map (·.tellAll []))
  rw [hsame]
  rfl

theorem Tells.bind {first second : Telling σ PUnit} {d d' : Delivery} (h : Tells first d)
    (h' : Tells second d') : Tells (first >>= fun _ => second) (d.append d') := by
  intro ls
  have hrun : (first >>= fun _ => second).run ls =
      ExceptT.bindCont (fun _ => second) (first.run ls).1 (first.run ls).2 := rfl
  rw [hrun, h ls]
  obtain ⟨es, fault⟩ := d
  cases fault with
  | some f => rfl
  | none =>
    change second.run (ls.map (·.tellAll es)) = _
    rw [h', List.map_map]
    have htell : ∀ l : Listener σ, (l.tellAll es).tellAll d'.events = l.tellAll (es ++ d'.events) :=
      fun l => (l.tellAll_append es d'.events).symm
    exact congrArg (d'.outcome, ·) (List.map_congr_left fun l _ => htell l)

theorem tells_forM {α : Type} {part : α → Telling σ PUnit} {d : α → Delivery} (xs : List α)
    (h : ∀ x, Tells (part x) (d x)) : Tells (xs.forM part) (.join (xs.map d)) := by
  induction xs with
  | nil => exact tells_nothing
  | cons x xs ih => exact (h x).bind ih

end Tells

namespace Source

variable {σ : Type} (s : Source)

theorem tells_directives (offset : Nat) (context : Context) (body : List Char) :
    Tells (s.tellDirectives offset context body : Telling σ PUnit)
      (.ofEvents (s.directives offset context body)) := by
  have htells : Tells (s.tellDirectives offset context body : Telling σ PUnit) _ :=
    tells_forM (Yaml.Outline.read body).pairs
      fun p => tells_emit (.directive (s.directive offset context p))
  rw [Delivery.join_ofEvents] at htells
  rwa [directives, List.map_eq_flatMap]

theorem tells_frontMatter (f : FrontMatter) :
    Tells (s.tellFrontMatter f : Telling σ PUnit) (.ofEvents (s.frontMatter f)) :=
  (tells_emit _).bind (s.tells_directives _ _ _)

theorem tells_comment (offset : Nat) (c : Html.Comment) :
    Tells (s.tellComment offset c : Telling σ PUnit) (.ofEvents (s.comment offset c)) := by
  rw [tellComment, comment]
  generalize Html.stripPadding (s.document.textIn (c.content.shift offset)) = stripped
  obtain ⟨padding, body⟩ := stripped
  exact (tells_emit _).bind (s.tells_directives _ _ _)

theorem tells_fragment (span : Span) :
    Tells (s.tellFragment span : Telling σ PUnit) (s.fragment span) := by
  rw [tellFragment, fragment]
  cases Html.comments (s.document.textIn span) with
  | ok cs =>
    have htells : Tells (cs.forM (s.tellComment span.start) : Telling σ PUnit) _ :=
      tells_forM cs (s.tells_comment span.start)
    rwa [Delivery.join_ofEvents] at htells
  | error tag => exact tells_fault (.html tag)

theorem tells_node (offset : Nat) (n : Markdown.Node) :
    Tells (s.tellNode offset n : Telling σ PUnit) (s.node offset n) := by
  cases n with
  | html span => exact s.tells_fragment _
  | image span image => exact tells_emit _
  | math span => exact tells_emit _
  | inlineMath span =>
    simp only [tellNode, node, inlineMath]
    cases MathKind.classify? (s.document.textIn (span.shift offset))
        (dropBytes (span.shift offset).stop s.document.text) with
    | some kind => exact tells_emit _
    | none => exact tells_nothing

mutual

theorem tells_visit (s : Source) (offset : Nat) : ∀ t : Markdown.Tree,
    Tells (s.tellVisit offset t : Telling σ PUnit) (s.visit offset t)
  | .node content span children => by
    rw [tellVisit, visit]
    refine Tells.bind ?_ (tells_visitAll s offset children)
    cases content.node? span with
    | some n => exact s.tells_node offset n
    | none => exact tells_nothing

theorem tells_visitAll (s : Source) (offset : Nat) : ∀ ts : List Markdown.Tree,
    Tells (s.tellVisitAll offset ts : Telling σ PUnit) (s.visitAll offset ts)
  | [] => tells_nothing
  | t :: ts => (tells_visit s offset t).bind (tells_visitAll s offset ts)

end

theorem tells_parsed (offset : Nat) (parsed : Except Markdown.Message Markdown.Tree) :
    Tells (s.tellParsed offset parsed : Telling σ PUnit) (s.visitParsed offset parsed) := by
  cases parsed with
  | ok t => exact tells_visit s offset t
  | error m => exact tells_fault (.ofMessage m)

/-- Every listener of a pass hears the events that the pass delivers. -/
theorem tells_pass (parse : Markdown.Parser) :
    Tells (s.tellPass parse : Telling σ PUnit) (s.passWith parse) := by
  have hfront : Tells (s.front?.forM s.tellFrontMatter : Telling σ PUnit)
      (.ofEvents ((s.front?.map s.frontMatter).getD [])) := by
    cases s.front? with
    | some f => exact s.tells_frontMatter f
    | none => exact tells_nothing
  exact (tells_emit .startParse).bind (hfront.bind ((s.tells_parsed _ _).bind (tells_emit .endParse)))

end Source

end SlideDirectives.Deck
