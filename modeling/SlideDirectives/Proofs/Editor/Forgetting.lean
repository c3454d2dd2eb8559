import SlideDirectives.Proofs.Deck.SinceStart
import SlideDirectives.Proofs.Editor.DrainOrder

/-!
# Listeners forget

A rule remembers nothing of what it saw before a pass but how it was set up:
the start of the pass takes it back there, also from a pass that a fault cut
short. What was handed over is not handed over again.
-/

set_option autoImplicit false

namespace SlideDirectives.Editor

open Text Deck

namespace Rule

/-- What may be done with a rule. -/
inductive Use where
  | see (e : Event)
  | finish

def after (r : Rule) : Use → Rule
  | .see e => r.see e
  | .finish => r.finish.2

def afterAll (r : Rule) (us : List Use) : Rule :=
  us.foldl after r

theorem reset_see (r : Rule) (e : Event) : (r.see e).reset = r.reset := by
  cases e with
  | directive e =>
    cases r with
    | overloadingGlobal assigned =>
      simp only [see, seeDirective]
      split <;> rfl
    | _ => rfl
  | _ => cases r <;> rfl

theorem reset_finish (r : Rule) : r.finish.2.reset = r.reset := by
  cases r <;> rfl

theorem reset_after (r : Rule) (u : Use) : (r.after u).reset = r.reset := by
  cases u with
  | see e => exact reset_see r e
  | finish => exact reset_finish r

theorem reset_afterAll (r : Rule) (us : List Use) : (r.afterAll us).reset = r.reset := by
  induction us generalizing r with
  | nil => rfl
  | cons u us ih => exact (ih (r.after u)).trans (reset_after r u)

theorem seeAll_startParse (r : Rule) (es : List Event) :
    r.seeAll (.startParse :: es) = r.reset.seeAll es :=
  rfl

/-- A rule that has been used sees a pass as a new one does. -/
theorem seeAll_afterAll (o : Resolved) (n : RuleName) (us : List Use) (es : List Event) :
    ((ofName o n).afterAll us).seeAll (.startParse :: es) =
      (ofName o n).seeAll (.startParse :: es) := by
  rw [seeAll_startParse, seeAll_startParse, reset_afterAll]

theorem finish_finish (r : Rule) : r.finish.2.finish.1 = [] := by
  cases r <;> simp [finish]

theorem finishBy_state (drain : List Assigned → List Assigned) (r : Rule) :
    (r.finishBy drain).2 = r.finish.2 := by
  cases r <;> rfl

end Rule

/-- Behind a pass every rule hands over what a new one would, up to order, and
a log holds what a new one would; a rule that is asked twice has nothing more
to hand over. At any time a log holds the events since the last start, is
sealed if they come to an end, and so is left open by a pass that fails. -/
theorem listeners_forget (o : Resolved) (n : RuleName) (uses : List Rule.Use) (heard : List Event)
    (drain drain' : List Assigned → List Assigned) (hdrain : ∀ as, (drain as).Perm as)
    (hdrain' : ∀ as, (drain' as).Perm as) (s : Source) (parse : Markdown.Parser) :
    let fresh := Rule.ofName o n
    let used := fresh.afterAll uses
    let log := Log.empty.addAll heard
    let es := (s.passWith parse).events
    ((used.seeAll es).finishBy drain).1.Perm ((fresh.seeAll es).finishBy drain').1 ∧
      ((used.finishBy drain).2.finishBy drain').1 = [] ∧
      log.addAll es = Log.empty.addAll es ∧
      IsSinceStart heard log.events ∧
      (log.isSealed = true ↔ .endParse ∈ log.events) ∧
      (log.addAll es).isSealed = (s.passWith parse).fault.isNone := by
  intro fresh used log es
  have hkeeps : log.Keeps heard := Log.keeps_addAll heard
  refine ⟨?_, ?_, ?_, hkeeps.current, hkeeps.ended, ?_⟩
  · obtain ⟨rest, hes, -⟩ := s.passWith_bounds parse
    have hsame : used.seeAll es = fresh.seeAll es := by
      change used.seeAll (s.passWith parse).events = fresh.seeAll (s.passWith parse).events
      rw [hes]
      exact Rule.seeAll_afterAll o n uses rest
    rw [hsame]
    exact (Rule.finishBy_perm hdrain _).trans (Rule.finishBy_perm hdrain' _).symm
  · have hnothing := Rule.finishBy_perm hdrain' (used.finishBy drain).2
    rw [Rule.finishBy_state, Rule.finish_finish] at hnothing
    rw [Rule.finishBy_state]
    exact hnothing.eq_nil
  · exact (s.addAll_passWith parse log).trans (s.addAll_passWith parse Log.empty).symm
  · rw [s.addAll_passWith parse log]

/-- A rule that has seen a pass fail behind a math directive keeps silent about
math, until the next pass starts. -/
theorem listeners_forget_failed :
    let failed := pass "<!-- math: katex -->\n\n$x$\n\n<select>\n<xmp><!-- -->".toList
    let es := (pass "$x$".toList).events
    let fresh := Rule.ofName Options.standard.resolve .defineMath
    let used := fresh.afterAll (failed.events.map .see ++ [.finish])
    let log := Log.empty.addAll failed.events
    (∀ as : List Assigned, as.reverse.Perm as) ∧ (∀ as : List Assigned, (id as).Perm as) ∧
      failed.fault.isSome = true ∧ (used.seeAll es.tail).finish.1 = [] ∧
      ((fresh.seeAll es).finishBy id).1.length = 1 ∧
      ((used.seeAll es).finishBy List.reverse).1.Perm ((fresh.seeAll es).finishBy id).1 ∧
      ((used.finishBy List.reverse).2.finishBy id).1 = [] ∧
      log.addAll es = Log.empty.addAll es ∧ IsSinceStart failed.events log.events ∧
      log.isSealed = false ∧ (log.addAll es).isSealed = true := by
  intro failed es fresh used log
  let s : Source := ⟨⟨"$x$".toList⟩, Registry.builtin⟩
  obtain ⟨hsame, htwice, hlog, hsince, -, hsealed⟩ :=
    listeners_forget Options.standard.resolve .defineMath (failed.events.map .see ++ [.finish])
      failed.events List.reverse id List.reverse_perm List.Perm.refl s (Markdown.parse .slideDeck)
  have hend : (pass "$x$".toList).fault.isNone = true := by decide +kernel
  refine ⟨List.reverse_perm, List.Perm.refl, by decide +kernel, by decide +kernel,
    by decide +kernel, hsame, htwice, hlog, hsince, by decide +kernel, ?_⟩
  exact hsealed.trans hend

end SlideDirectives.Editor
