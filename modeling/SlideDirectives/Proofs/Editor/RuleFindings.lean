import Mathlib.Data.List.Basic
import SlideDirectives.Editor.Rule

/-!
# What rules find in a stream

A rule that has seen all events of a pass has found one diagnostic for each
place in the stream at which the events before and behind call for it. Most
rules look at one event at a time; an overloaded directive depends on what
comes later, and the first math on what comes before and later.
-/

set_option autoImplicit false

namespace SlideDirectives.Editor

open Text Deck

def places (f : List Event → Event → List Event → Option Diagnostic) :
    List Event → List Event → List (Nat × Diagnostic)
  | _, [] => []
  | before, e :: after =>
    ((f before e after).map (before.length, ·)).toList ++ places f (before ++ [e]) after

section Places

variable {f : List Event → Event → List Event → Option Diagnostic}

theorem mem_places {before es : List Event} {i : Nat} {d : Diagnostic} :
    (i, d) ∈ places f before es ↔ ∃ past e after, es = past ++ e :: after ∧
      i = before.length + past.length ∧ f (before ++ past) e after = some d := by
  induction es generalizing before with
  | nil => simp [places]
  | cons x es ih =>
    rw [places, List.mem_append, ih, Option.mem_toList, Option.map_eq_some_iff]
    constructor
    · rintro (⟨d', hd', heq⟩ | ⟨past, e, after, rfl, rfl, hf⟩)
      · obtain ⟨rfl, rfl⟩ := Prod.mk.inj heq
        exact ⟨[], x, es, rfl, rfl, by rwa [List.append_nil]⟩
      · refine ⟨x :: past, e, after, rfl, ?_, by rwa [List.append_cons]⟩
        simp only [List.length_append, List.length_cons, List.length_nil]
        omega
    · rintro ⟨past, e, after, hes, rfl, hf⟩
      cases past with
      | nil =>
        obtain ⟨rfl, rfl⟩ := List.cons.inj hes
        rw [List.append_nil] at hf
        exact Or.inl ⟨d, hf, rfl⟩
      | cons y past =>
        obtain ⟨rfl, rfl⟩ := List.cons.inj hes
        refine Or.inr ⟨past, e, after, rfl, ?_, by rwa [List.append_cons] at hf⟩
        simp only [List.length_append, List.length_cons, List.length_nil]
        omega

/-- What holds of an event and each one behind it is passed on to what they
call for. -/
theorem places_pairwise {S : Event → Event → Prop} {R : Diagnostic → Diagnostic → Prop}
    (hpass : ∀ {e e' d d'} {before after before' after' : List Event}, S e e' →
      f before e after = some d → f before' e' after' = some d' → R d d')
    (before : List Event) {es : List Event} (h : es.Pairwise S) :
    (places f before es).Pairwise (fun x y => x.1 < y.1 ∧ R x.2 y.2) := by
  induction es generalizing before with
  | nil => exact List.Pairwise.nil
  | cons e es ih =>
    obtain ⟨hfirst, hrest⟩ := List.pairwise_cons.mp h
    rw [places, List.pairwise_append]
    refine ⟨?_, ih (before ++ [e]) hrest, ?_⟩
    · cases f before e es with
      | none => exact List.Pairwise.nil
      | some d => exact List.pairwise_singleton _ _
    · rintro ⟨i, d⟩ hd ⟨j, d'⟩ hd'
      obtain ⟨_, hf, heq⟩ := Option.map_eq_some_iff.mp (Option.mem_toList.mp hd)
      obtain ⟨rfl, rfl⟩ := Prod.mk.inj heq
      obtain ⟨past, e', after, rfl, rfl, hf'⟩ := mem_places.mp hd'
      refine ⟨?_, hpass (hfirst e' (List.mem_append_right past List.mem_cons_self)) hf hf'⟩
      simp only [List.length_append, List.length_cons, List.length_nil]
      omega

theorem places_nodup (before es : List Event) : (places f before es).Nodup := by
  have hany : es.Pairwise (fun _ _ => True) := List.pairwise_of_forall fun _ _ => trivial
  have hindices := places_pairwise (f := f) (R := fun _ _ => True) (fun _ _ _ => trivial) before hany
  refine hindices.imp fun {x y} hlt heq => ?_
  rw [heq] at hlt
  exact Nat.lt_irrefl _ hlt.1

theorem places_cons (before : List Event) (e : Event) (after : List Event) :
    (places f before (e :: after)).map Prod.snd =
      (f before e after).toList ++ (places f (before ++ [e]) after).map Prod.snd := by
  rw [places, List.map_append]
  cases f before e after <;> rfl

theorem places_own {g : Event → Option Diagnostic} (h : ∀ before e after, f before e after = g e)
    (before es : List Event) : (places f before es).map Prod.snd = es.filterMap g := by
  induction es generalizing before with
  | nil => rfl
  | cons e es ih =>
    rw [places_cons, ih, h, List.filterMap_cons]
    cases g e <;> rfl

end Places

namespace Rule

def own : Rule → Event → Option Diagnostic
  | .unknownTheme o _, .directive e => unknownThemeOf o e
  | .unknownSize o _, .directive e => unknownSizeOf o e
  | .dollarPrefix _, .directive e => dollarPrefixOf e
  | .colorShorthand _, .image e => colorShorthandOf e
  | .ignoredMath t _, .directive e => ignoredMathOf t e
  | _, _ => none

def collects : Rule → Bool
  | .overloadingGlobal _ | .defineMath _ _ _ => false
  | _ => true

section Collecting

variable {r : Rule}

theorem see_collects (h : r.collects = true) {e : Event} (he : e ≠ .startParse) :
    (r.see e).collects = true ∧ (r.see e).own = r.own ∧
      (r.see e).finish.1 = r.finish.1 ++ (r.own e).toList := by
  cases r with
  | overloadingGlobal _ => cases h
  | defineMath _ _ _ => cases h
  | _ =>
    cases e with
    | startParse => exact absurd rfl he
    | _ =>
      refine ⟨rfl, funext fun x => ?_, ?_⟩
      · cases x <;> rfl
      · simp [see, seeDirective, finish, own]

theorem seeAll_collects (h : r.collects = true) {es : List Event} (hes : .startParse ∉ es) :
    (r.seeAll es).finish.1 = r.finish.1 ++ es.filterMap r.own := by
  induction es generalizing r with
  | nil => exact (List.append_nil _).symm
  | cons e es ih =>
    obtain ⟨he, hrest⟩ := List.ne_and_not_mem_of_not_mem_cons hes
    obtain ⟨hcollects, hown, hfound⟩ := see_collects h (Ne.symm he)
    change ((r.see e).seeAll es).finish.1 = _
    rw [ih hcollects hrest, hown, hfound, List.append_assoc, List.filterMap_cons]
    cases r.own e <;> rfl

end Collecting

section Overloading

def global? : Event → Option (List Char × Range)
  | .directive e => (e.definition.filter Definition.isGlobal).map (fun d => (d.name, e.fullRange))
  | _ => none

def setsGlobal (name : List Char) (e : Event) : Bool :=
  (global? e).any (·.1 == name)

def overloadedOf (name : List Char) (range : Range) : Diagnostic :=
  ⟨.overloadingGlobal, "The global directive " ++ quote name ++
    " is overloaded by a later definition. This value is ignored.", range⟩

def overloadedBy (e : Event) (after : List Event) : Option Diagnostic :=
  (global? e).bind fun p =>
    if after.any (setsGlobal p.1) then some (overloadedOf p.1 p.2) else none

theorem overloadedBy_some {e : Event} {name : List Char} {range : Range}
    (he : global? e = some (name, range)) (after : List Event) : overloadedBy e after =
      if after.any (setsGlobal name) then some (overloadedOf name range) else none := by
  rw [overloadedBy, he]
  rfl

theorem see_overloading (as : List Assigned) {e : Event} (he : e ≠ .startParse) :
    (overloadingGlobal as).see e =
      .overloadingGlobal ((global? e).elim as (fun p => assign p.1 p.2 as)) := by
  cases e with
  | startParse => exact absurd rfl he
  | directive e =>
    cases hdefinition : e.definition with
    | none => simp [see, seeDirective, global?, hdefinition]
    | some d => cases hglobal : d.isGlobal <;>
        simp [see, seeDirective, global?, hdefinition, hglobal, Option.filter]
  | _ => rfl

def Assigned.overloadedIn (after : List Event) (a : Assigned) : List Diagnostic :=
  if after.any (setsGlobal a.name) then a.ranges.map (overloadedOf a.name)
  else Assigned.overloaded a

theorem mem_names_assign {name name' : List Char} {range : Range} {as : List Assigned} :
    name' ∈ (assign name range as).map Assigned.name ↔
      name' = name ∨ name' ∈ as.map Assigned.name := by
  induction as with
  | nil => simp [assign]
  | cons a as ih =>
    rw [assign]
    split
    · next ha => simp [ha]
    · rw [List.map_cons, List.mem_cons, ih, List.map_cons, List.mem_cons, or_left_comm]

theorem nodup_assign {name : List Char} {range : Range} {as : List Assigned}
    (h : (as.map Assigned.name).Nodup) : ((assign name range as).map Assigned.name).Nodup := by
  induction as with
  | nil => simp [assign]
  | cons a as ih =>
    obtain ⟨ha, has⟩ := List.nodup_cons.mp h
    rw [assign]
    split
    · next hname =>
      rw [List.map_cons, ← hname]
      exact List.nodup_cons.mpr ⟨ha, has⟩
    · next hname =>
      rw [List.map_cons, List.nodup_cons, mem_names_assign]
      exact ⟨fun hor => hor.elim hname ha, ih has⟩

theorem overloadedIn_cons_of_ne {a : Assigned} {e : Event} {after : List Event}
    (h : setsGlobal a.name e = false) :
    Assigned.overloadedIn (e :: after) a = Assigned.overloadedIn after a := by
  simp [Assigned.overloadedIn, h]

/-- An assignment adds itself, if it is overloaded later, and with it the last
one before it. -/
theorem overloadedIn_assign {name : List Char} {range : Range} {e : Event} {after : List Event}
    (he : global? e = some (name, range)) {as : List Assigned}
    (h : (as.map Assigned.name).Nodup) :
    ((assign name range as).flatMap (Assigned.overloadedIn after)).Perm
      (as.flatMap (Assigned.overloadedIn (e :: after)) ++ (overloadedBy e after).toList) := by
  have hsets : ∀ name', setsGlobal name' e = (name == name') := by
    intro name'
    simp [setsGlobal, he]
  induction as with
  | nil =>
    rw [overloadedBy_some he, assign, List.flatMap_singleton, Assigned.overloadedIn]
    split <;> exact .refl _
  | cons a as ih =>
    obtain ⟨ha, has⟩ := List.nodup_cons.mp h
    rw [assign]
    split
    · next hname =>
      have hothers : as.flatMap (Assigned.overloadedIn (e :: after)) =
          as.flatMap (Assigned.overloadedIn after) := by
        refine List.flatMap_congr fun b hb => overloadedIn_cons_of_ne ?_
        rw [hsets, beq_eq_false_iff_ne, ← hname]
        intro hab
        exact ha (hab ▸ List.mem_map_of_mem hb)
      have hhere : Assigned.overloadedIn (e :: after) a = a.ranges.map (overloadedOf name) := by
        simp [Assigned.overloadedIn, hsets, hname]
      have hbefore : Assigned.overloaded ⟨name, a.ranges ++ [range]⟩ =
          a.ranges.map (overloadedOf name) := by
        rw [Assigned.overloaded, List.dropLast_concat]
        rfl
      have hnew : Assigned.overloadedIn after ⟨name, a.ranges ++ [range]⟩ =
          Assigned.overloadedIn (e :: after) a ++ (overloadedBy e after).toList := by
        rw [hhere, overloadedBy_some he, Assigned.overloadedIn, hbefore, List.map_append]
        split
        · rfl
        · exact (List.append_nil _).symm
      rw [List.flatMap_cons, List.flatMap_cons, hothers, hnew, List.append_assoc, List.append_assoc]
      exact (List.perm_append_comm).append_left _
    · next hname =>
      have hsame : Assigned.overloadedIn (e :: after) a = Assigned.overloadedIn after a := by
        refine overloadedIn_cons_of_ne ?_
        rw [hsets, beq_eq_false_iff_ne]
        exact fun heq => hname heq.symm
      rw [List.flatMap_cons, List.flatMap_cons, hsame, List.append_assoc]
      exact (ih has).append_left _

theorem seeAll_overloading {as : List Assigned} (h : (as.map Assigned.name).Nodup)
    (before : List Event) {es : List Event} (hes : .startParse ∉ es) :
    (((overloadingGlobal as).seeAll es).finish.1).Perm (as.flatMap (Assigned.overloadedIn es) ++
      (places (fun _ => overloadedBy) before es).map Prod.snd) := by
  induction es generalizing as before with
  | nil =>
    have hnone : Assigned.overloadedIn [] = Assigned.overloaded := rfl
    rw [hnone]
    exact List.append_nil _ ▸ .refl _
  | cons e es ih =>
    obtain ⟨he, hrest⟩ := List.ne_and_not_mem_of_not_mem_cons hes
    have hsee := see_overloading as (Ne.symm he)
    change (((overloadingGlobal as).see e).seeAll es).finish.1.Perm _
    rw [places_cons, hsee, ← List.append_assoc]
    cases hglobal : global? e with
    | none =>
      have hothers : as.flatMap (Assigned.overloadedIn (e :: es)) =
          as.flatMap (Assigned.overloadedIn es) := by
        refine List.flatMap_congr fun a _ => overloadedIn_cons_of_ne ?_
        simp [setsGlobal, hglobal]
      have hnothing : overloadedBy e es = none := by
        rw [overloadedBy, hglobal]
        rfl
      rw [hothers, hnothing, Option.toList_none, List.append_nil]
      exact ih h (before ++ [e]) hrest
    | some p =>
      exact (ih (nodup_assign h) (before ++ [e]) hrest).trans
        ((overloadedIn_assign hglobal h).append_right _)

end Overloading

section Math

def math? : Event → Option Range
  | .maybeMath e => some e.range
  | _ => none

def definesMath : Event → Bool
  | .directive e => setsMath e
  | _ => false

def undefinedMath (t : MathTypesetting) (before : List Event) (e : Event) (after : List Event) :
    Option Diagnostic :=
  if t = .off ∨ before.any (math? · |>.isSome) ∨ (before ++ e :: after).any definesMath then none
  else (math? e).map definedMathOf

theorem seeAll_math (t : MathTypesetting) (defined : Bool) (first : Option Range)
    {es : List Event} (hes : .startParse ∉ es) :
    (defineMath t defined first).seeAll es =
      .defineMath t (defined || es.any definesMath) (first.or (es.findSome? math?)) := by
  induction es generalizing defined first with
  | nil => simp [seeAll]
  | cons e es ih =>
    obtain ⟨he, hrest⟩ := List.ne_and_not_mem_of_not_mem_cons hes
    have hsee : (defineMath t defined first).see e =
        .defineMath t (defined || definesMath e) (first.or (math? e)) := by
      cases e <;> simp_all [see, seeDirective, definesMath, math?]
    change ((defineMath t defined first).see e).seeAll es = _
    rw [hsee, ih _ _ hrest, List.any_cons, Bool.or_assoc, List.findSome?_cons, Option.or_assoc]
    cases math? e <;> rfl

theorem places_undefinedMath (t : MathTypesetting) (before es : List Event) :
    (places (undefinedMath t) before es).map Prod.snd =
      if t = .off ∨ before.any (math? · |>.isSome) ∨ (before ++ es).any definesMath then []
      else (es.findSome? math?).toList.map definedMathOf := by
  induction es generalizing before with
  | nil => simp [places]
  | cons e es ih =>
    rw [places_cons, ih, undefinedMath, List.append_assoc, List.singleton_append,
      List.findSome?_cons]
    cases hmath : math? e with
    | none => simp [hmath]
    | some range =>
      have hseen : (before ++ [e]).any (math? · |>.isSome) = true := by simp [hmath]
      rw [if_pos (Or.inr (Or.inl hseen)), List.append_nil]
      split <;> rfl

end Math

def asked (o : Resolved) : RuleName → List Event → Event → List Event → Option Diagnostic
  | .overloadingGlobal, _, e, after => overloadedBy e after
  | .defineMath, before, e, after => undefinedMath o.math before e after
  | r, _, e, _ => (ofName o r).own e

theorem places_asked {o : Resolved} {r : RuleName} (h : (ofName o r).collects = true)
    (before es : List Event) :
    (places (asked o r) before es).map Prod.snd = es.filterMap (ofName o r).own := by
  refine places_own (fun _ _ _ => ?_) before es
  cases r <;> first | rfl | cases h

/-- A rule forgets what it saw when a pass starts, and reports what it is asked
for at the places of the pass. -/
theorem seeAll_asked (o : Resolved) (r : RuleName) {es : List Event} (hes : .startParse ∉ es) :
    (((ofName o r).seeAll (.startParse :: es)).finish.1).Perm
      ((places (asked o r) [] (.startParse :: es)).map Prod.snd) := by
  have hstart : (ofName o r).seeAll (.startParse :: es) = (ofName o r).seeAll es := by
    cases r <;> rfl
  have hplaces : (places (asked o r) [] (.startParse :: es)).map Prod.snd =
      (places (asked o r) [.startParse] es).map Prod.snd := by
    rw [places_cons]
    have hnothing : asked o r [] .startParse es = none := by
      cases r <;> simp [asked, own, ofName, overloadedBy, global?, undefinedMath, math?]
    rw [hnothing]
    rfl
  rw [hstart, hplaces]
  cases hcollects : (ofName o r).collects with
  | true =>
    have hnew : (ofName o r).finish.1 = [] := by
      cases r <;> first | rfl | cases hcollects
    rw [seeAll_collects hcollects hes, places_asked hcollects, hnew]
    exact .refl _
  | false =>
    cases r with
    | overloadingGlobal =>
      have hnone : (([] : List Assigned).map Assigned.name).Nodup := List.nodup_nil
      exact seeAll_overloading hnone _ hes
    | defineMath =>
      change (((defineMath o.math false none).seeAll es).finish.1).Perm
        ((places (undefinedMath o.math) [.startParse] es).map Prod.snd)
      rw [seeAll_math _ _ _ hes, places_undefinedMath]
      simp [finish, math?, definesMath]
    | _ => cases hcollects

end Rule

end SlideDirectives.Editor
