import SlideDirectives.Deck.Log
import SlideDirectives.Proofs.Deck.Recognised
import SlideDirectives.Proofs.Deck.Stream

/-!
# What a log holds

A log holds the events since the last start of a pass, whatever it was given
before, and is sealed exactly if one of them ends the pass. So the log of a
pass is that of its delivery, and a fault leaves it open.
-/

set_option autoImplicit false

namespace SlideDirectives.Deck

/-- The events since the last start of a pass, or all of them if there was
none. -/
structure IsSinceStart (es current : List Event) : Prop where
  isSuffix : current <:+ es
  last : .startParse ∉ current.tail
  whole : current.head? = some .startParse ∨ current = es

namespace Log

structure Keeps (l : Log) (es : List Event) : Prop where
  current : IsSinceStart es l.events
  ended : l.isSealed = true ↔ .endParse ∈ l.events

section Keeping

variable {l : Log} {es : List Event}

theorem keeps_empty : empty.Keeps [] :=
  ⟨⟨List.suffix_rfl, List.not_mem_nil, Or.inr rfl⟩, by simp [empty]⟩

theorem add_startParse (l : Log) : l.add .startParse = ⟨[.startParse], false⟩ :=
  rfl

theorem add_other {e : Event} (he : e ≠ .startParse) :
    l.add e = ⟨l.events ++ [e], l.isSealed || e == .endParse⟩ := by
  rw [add, if_neg he]

theorem Keeps.add (h : l.Keeps es) (e : Event) : (l.add e).Keeps (es ++ [e]) := by
  by_cases he : e = .startParse
  · subst he
    rw [add_startParse]
    exact ⟨⟨List.suffix_append es _, List.not_mem_nil, Or.inl rfl⟩, by simp⟩
  · obtain ⟨⟨⟨before, hbefore⟩, hlast, hwhole⟩, hended⟩ := h
    rw [add_other he]
    refine ⟨⟨⟨before, ?_⟩, ?_, ?_⟩, ?_⟩
    · rw [← List.append_assoc, hbefore]
    · cases hevents : l.events with
      | nil => exact List.not_mem_nil
      | cons x xs =>
        rw [hevents] at hlast
        simpa [Ne.symm he] using hlast
    · refine hwhole.imp (fun hhead => ?_) (congrArg (· ++ [e]))
      rw [List.head?_append, hhead]
      rfl
    · rw [Bool.or_eq_true, hended, List.mem_append, List.mem_singleton, beq_iff_eq,
        @eq_comm _ e]

theorem Keeps.addAll {past : List Event} (h : l.Keeps past) (es : List Event) :
    (l.addAll es).Keeps (past ++ es) := by
  induction es generalizing l past with
  | nil => rwa [List.append_nil]
  | cons e es ih =>
    rw [List.append_cons]
    exact ih (h.add e)

theorem keeps_addAll (es : List Event) : (empty.addAll es).Keeps es :=
  keeps_empty.addAll es

end Keeping

/-- A start makes every log the same. -/
theorem addAll_startParse (l l' : Log) (es : List Event) :
    l.addAll (.startParse :: es) = l'.addAll (.startParse :: es) :=
  rfl

end Log

theorem IsSinceStart.eq_of_cons {es current : List Event}
    (h : IsSinceStart (.startParse :: es) current) (hes : .startParse ∉ es) :
    current = .startParse :: es := by
  rcases h.whole with hhead | hall
  · rcases List.suffix_cons_iff.mp h.isSuffix with hall | hsuffix
    · exact hall
    · exact absurd (hsuffix.subset (List.mem_of_head? hhead)) hes
  · exact hall

namespace Source

variable (s : Source) (parse : Markdown.Parser)

theorem passWith_bounds : ∃ es, (s.passWith parse).events = .startParse :: es ∧
    .startParse ∉ es ∧ (.endParse ∈ es ↔ (s.passWith parse).fault.isNone = true) := by
  have hbound := s.inner_not_isBound parse
  rw [s.passWith_eq parse]
  generalize (s.front?.map s.frontMatter).getD [] = front at hbound
  refine ⟨front ++ (s.inner parse).events ++ (s.inner parse).closing, rfl, ?_, ?_⟩
  · intro hmem
    rcases List.mem_append.mp hmem with hmem | hmem
    · exact Bool.noConfusion (hbound _ hmem)
    · cases Delivery.mem_closing hmem
  · have hend : .endParse ∉ front ++ (s.inner parse).events := fun h => Bool.noConfusion (hbound _ h)
    rw [List.mem_append, or_iff_right hend, Delivery.closing]
    cases (s.inner parse).fault <;> simp

/-- Whatever a log held before, behind a pass it holds what the pass delivered,
and is sealed if the pass came to its end. -/
theorem addAll_passWith (l : Log) :
    l.addAll (s.passWith parse).events =
      ⟨(s.passWith parse).events, (s.passWith parse).fault.isNone⟩ := by
  obtain ⟨es, hes, hstart, hend⟩ := s.passWith_bounds parse
  have hkeeps := Log.keeps_addAll (.startParse :: es)
  have hevents := hkeeps.current.eq_of_cons hstart
  have hsealed : (Log.empty.addAll (.startParse :: es)).isSealed =
      (s.passWith parse).fault.isNone := by
    rw [Bool.eq_iff_iff, hkeeps.ended, hevents, ← hend]
    simp
  rw [hes, Log.addAll_startParse l Log.empty, ← hsealed]
  exact congrArg (Log.mk · _) hevents

end Source

end SlideDirectives.Deck
