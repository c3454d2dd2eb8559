import Mathlib.Algebra.Group.Nat.Defs
import SlideDirectives.Editor.OptionsCache

/-!
# Resolved options are never stale

What a cache holds was resolved in its own generation or in an earlier one. As
long as the counter of generations does not come round, what is held for the
current one comes from the current options, and no value of an earlier one is
handed out again.
-/

set_option autoImplicit false

namespace SlideDirectives.Editor.OptionsCache

/-- What a cache is asked for. -/
inductive Call where
  | set (o : Options)
  | invalidate
  | options
  | resolved
  deriving DecidableEq, Repr

namespace Call

def isChange : Call → Bool
  | .set _ | .invalidate => true
  | .options | .resolved => false

def changes (calls : List Call) : Nat :=
  calls.countP isChange

/-- The options that were set last, or those before all calls. -/
def lastSet : Options → List Call → Options
  | o, [] => o
  | _, .set o :: calls => lastSet o calls
  | o, .invalidate :: calls | o, .options :: calls | o, .resolved :: calls => lastSet o calls

theorem changes_append (calls rest : List Call) :
    changes (calls ++ rest) = changes calls + changes rest :=
  List.countP_append

theorem changes_cons (call : Call) (calls : List Call) :
    changes (call :: calls) = changes [call] + changes calls :=
  changes_append [call] calls

theorem changes_eq_zero {calls : List Call} :
    changes calls = 0 ↔ ∀ call ∈ calls, call.isChange = false := by
  simp [changes, List.countP_eq_zero]

end Call

def after (c : OptionsCache) : Call → OptionsCache
  | .set o => c.set o
  | .invalidate => c.invalidate
  | .options => c
  | .resolved => c.resolved.2

def afterAll : OptionsCache → List Call → OptionsCache
  | c, [] => c
  | c, call :: calls => afterAll (c.after call) calls

theorem afterAll_append (c : OptionsCache) (calls rest : List Call) :
    c.afterAll (calls ++ rest) = (c.afterAll calls).afterAll rest := by
  induction calls generalizing c with
  | nil => rfl
  | cons call calls ih => exact ih (c.after call)

section Resolved

variable {c : OptionsCache}

theorem resolved_cases (c : OptionsCache) :
    (∃ s, c.held = some ⟨c.counter, s⟩ ∧ c.resolved = (s, c)) ∨ c.resolved = c.make := by
  rw [resolved]
  cases hfresh : c.fresh? with
  | none => exact Or.inr rfl
  | some s =>
    obtain ⟨h, hheld, rfl⟩ := Option.map_eq_some_iff.mp hfresh
    obtain ⟨hheld, hcurrent⟩ := Option.filter_eq_some_iff.mp hheld
    have hgeneration : h.generation = c.counter := eq_of_beq hcurrent
    exact Or.inl ⟨h.shared, by rw [hheld, ← hgeneration], rfl⟩

theorem resolved_of_held {s : Shared} (h : c.held = some ⟨c.counter, s⟩) :
    c.resolved = (s, c) := by
  have hfresh : c.fresh? = some s := by
    simp [fresh?, h, Option.filter]
  rw [resolved, hfresh]

theorem held_resolved (c : OptionsCache) :
    c.resolved.2.held = some ⟨c.counter, c.resolved.1⟩ := by
  rcases resolved_cases c with ⟨s, hheld, heq⟩ | heq
  · rw [heq, hheld]
  · rw [heq]
    rfl

theorem options_resolved (c : OptionsCache) : c.resolved.2.options = c.options := by
  rcases resolved_cases c with ⟨s, -, heq⟩ | heq <;> rw [heq]
  rfl

theorem counter_resolved (c : OptionsCache) : c.resolved.2.counter = c.counter := by
  rcases resolved_cases c with ⟨s, -, heq⟩ | heq <;> rw [heq]
  rfl

end Resolved

section Counting

theorem options_afterAll (c : OptionsCache) (calls : List Call) :
    (c.afterAll calls).options = Call.lastSet c.options calls := by
  induction calls generalizing c with
  | nil => rfl
  | cons call calls ih =>
    rw [afterAll, ih]
    cases call with
    | resolved => rw [after, options_resolved, Call.lastSet]
    | _ => rfl

theorem generation_invalidate {c : OptionsCache} (h : c.generation + 1 < 2 ^ 64) :
    c.invalidate.generation = c.generation + 1 := by
  rw [generation] at *
  rw [invalidate, UInt64.toNat_add, UInt64.toNat_one]
  exact Nat.mod_eq_of_lt h

theorem generation_after {c : OptionsCache} {call : Call}
    (h : c.generation + Call.changes [call] < 2 ^ 64) :
    (c.after call).generation = c.generation + Call.changes [call] := by
  cases call with
  | set o => exact generation_invalidate h
  | invalidate => exact generation_invalidate h
  | options => rfl
  | resolved => exact congrArg UInt64.toNat (counter_resolved c)

theorem generation_afterAll {c : OptionsCache} {calls : List Call}
    (h : c.generation + Call.changes calls < 2 ^ 64) :
    (c.afterAll calls).generation = c.generation + Call.changes calls := by
  induction calls generalizing c with
  | nil => rfl
  | cons call calls ih =>
    rw [Call.changes_cons] at *
    have hcall : (c.after call).generation = c.generation + Call.changes [call] :=
      generation_after (by omega)
    rw [afterAll, ih (by omega), hcall, Nat.add_assoc]

end Counting

/-- What is held is of a generation up to the current one, and of the current
options if it is of the current one. -/
structure Coherent (c : OptionsCache) : Prop where
  past : ∀ h, c.held = some h → h.generation.toNat ≤ c.generation
  current : ∀ h, c.held = some h → h.generation = c.counter → h.shared.value = c.options.resolve
  made : ∀ h, c.held = some h → h.shared.made < c.made

namespace Coherent

variable {c : OptionsCache}

theorem ofOptions (o : Options) : Coherent (ofOptions o) := by
  constructor <;> intro h hheld <;> cases hheld

theorem changed (hc : Coherent c) (o : Options) (h : c.generation + 1 < 2 ^ 64) :
    Coherent (c.set o) := by
  have hgeneration := generation_invalidate h
  constructor
  · intro h hheld
    have hpast := hc.past h hheld
    change _ ≤ c.invalidate.generation
    omega
  · intro h hheld hcurrent
    have hpast := hc.past h hheld
    have hsame : h.generation.toNat = c.invalidate.generation := congrArg UInt64.toNat hcurrent
    omega
  · exact hc.made

theorem make (c : OptionsCache) : Coherent c.make.2 := by
  constructor
  · rintro h ⟨⟩
    exact Nat.le_refl _
  · rintro h ⟨⟩ -
    rfl
  · rintro h ⟨⟩
    exact Nat.lt_succ_self _

theorem after (hc : Coherent c) {call : Call} (h : c.generation + Call.changes [call] < 2 ^ 64) :
    Coherent (c.after call) := by
  cases call with
  | set o => exact hc.changed o h
  | invalidate => exact hc.changed c.options h
  | options => exact hc
  | resolved =>
    rcases resolved_cases c with ⟨s, -, heq⟩ | heq <;> rw [OptionsCache.after, heq]
    · exact hc
    · exact Coherent.make c

theorem afterAll (hc : Coherent c) {calls : List Call}
    (h : c.generation + Call.changes calls < 2 ^ 64) : Coherent (c.afterAll calls) := by
  induction calls generalizing c with
  | nil => exact hc
  | cons call calls ih =>
    rw [Call.changes_cons] at h
    have hcall : c.generation + Call.changes [call] < 2 ^ 64 := by omega
    refine ih (hc.after hcall) ?_
    rw [generation_after hcall]
    omega

theorem value_resolved (hc : Coherent c) : c.resolved.1.value = c.options.resolve := by
  rcases resolved_cases c with ⟨s, hheld, heq⟩ | heq <;> rw [heq]
  · exact hc.current _ hheld rfl
  · rfl

end Coherent

/-- Whatever is held of a generation behind `generation` has at least the number
`made`, and so have all values to come. -/
structure Since (generation made : Nat) (c : OptionsCache) : Prop where
  held : ∀ h, c.held = some h → generation < h.generation.toNat → made ≤ h.shared.made
  next : made ≤ c.made

namespace Since

variable {generation made : Nat} {c : OptionsCache}

theorem after (hc : Since generation made c) (call : Call) :
    Since generation made (c.after call) := by
  cases call with
  | set o => exact ⟨hc.held, hc.next⟩
  | invalidate => exact ⟨hc.held, hc.next⟩
  | options => exact hc
  | resolved =>
    rcases resolved_cases c with ⟨s, -, heq⟩ | heq <;> rw [OptionsCache.after, heq]
    · exact hc
    · refine ⟨?_, Nat.le_succ_of_le hc.next⟩
      rintro h ⟨⟩ -
      exact hc.next

theorem afterAll (hc : Since generation made c) (calls : List Call) :
    Since generation made (c.afterAll calls) := by
  induction calls generalizing c with
  | nil => exact hc
  | cons call calls ih => exact ih (hc.after call)

theorem made_resolved (hc : Since generation made c) (h : generation < c.generation) :
    made ≤ c.resolved.1.made := by
  rcases resolved_cases c with ⟨s, hheld, heq⟩ | heq <;> rw [heq]
  · exact hc.held _ hheld h
  · exact hc.next

end Since

theorem resolved_unchanged {c : OptionsCache} {s : Shared} (h : c.held = some ⟨c.counter, s⟩)
    {calls : List Call} (hcalls : ∀ call ∈ calls, call.isChange = false) :
    (c.afterAll calls).resolved.1 = s := by
  induction calls generalizing c with
  | nil => rw [afterAll, resolved_of_held h]
  | cons call calls ih =>
    obtain ⟨hcall, hrest⟩ := List.forall_mem_cons.mp hcalls
    cases call with
    | set o => cases hcall
    | invalidate => cases hcall
    | options => exact ih h hrest
    | resolved =>
      rw [afterAll, after, resolved_of_held h]
      exact ih h hrest

theorem made_resolved_changed {c : OptionsCache} (hc : Coherent c) {calls : List Call}
    (h : c.generation + Call.changes calls < 2 ^ 64) (hcalls : 0 < Call.changes calls) :
    c.resolved.1.made < (c.resolved.2.afterAll calls).resolved.1.made := by
  have hgeneration : c.resolved.2.generation = c.generation :=
    congrArg UInt64.toNat (counter_resolved c)
  have hnow : c.generation + Call.changes [.resolved] < 2 ^ 64 := by
    change c.generation + 0 < 2 ^ 64
    omega
  have hcoherent : Coherent c.resolved.2 := hc.after hnow
  have hmade : c.resolved.1.made < c.resolved.2.made := hcoherent.made _ (held_resolved c)
  have hsince : Since c.generation c.resolved.2.made c.resolved.2 := by
    refine ⟨fun held hheld hlater => ?_, Nat.le_refl _⟩
    have hpast := hcoherent.past held hheld
    omega
  have hafter : (c.resolved.2.afterAll calls).generation =
      c.resolved.2.generation + Call.changes calls := generation_afterAll (by omega)
  have hlater := (hsince.afterAll calls).made_resolved (by omega)
  omega

/-- After any calls, as long as the counter has not come round, a cache has the
options that were set last and one generation for each change; it hands out
these options resolved, and that very value again until the next change. -/
theorem never_stale (o : Options) (calls between : List Call)
    (h : Call.changes (calls ++ .resolved :: between) < 2 ^ 64) :
    let c := (ofOptions o).afterAll calls
    let later := (ofOptions o).afterAll (calls ++ .resolved :: between)
    c.options = Call.lastSet o calls ∧
      c.generation = Call.changes calls ∧
      c.resolved.1.value = (Call.lastSet o calls).resolve ∧
      (later.resolved.1.made = c.resolved.1.made ↔ ∀ call ∈ between, call.isChange = false) := by
  intro c later
  rw [Call.changes_append, Call.changes_cons] at h
  have hstart : (ofOptions o).generation = 0 := rfl
  have hcalls : (ofOptions o).generation + Call.changes calls < 2 ^ 64 := by omega
  have hoptions : c.options = Call.lastSet o calls := options_afterAll _ calls
  have hgeneration : c.generation = Call.changes calls := by
    rw [generation_afterAll hcalls, hstart, Nat.zero_add]
  have hcoherent : Coherent c := (Coherent.ofOptions o).afterAll hcalls
  have hlater : later = c.resolved.2.afterAll between := afterAll_append _ calls _
  refine ⟨hoptions, hgeneration, ?_, ?_⟩
  · rw [hcoherent.value_resolved, hoptions]
  · rw [hlater, ← Call.changes_eq_zero]
    constructor
    · intro hsame
      rcases Nat.eq_zero_or_pos (Call.changes between) with hnone | hsome
      · exact hnone
      · have hbound : c.generation + Call.changes between < 2 ^ 64 := by omega
        have hmade := made_resolved_changed hcoherent hbound hsome
        omega
    · intro hunchanged
      have hheld : c.resolved.2.held = some ⟨c.resolved.2.counter, c.resolved.1⟩ := by
        rw [held_resolved, counter_resolved]
      rw [resolved_unchanged hheld (Call.changes_eq_zero.mp hunchanged)]

/-- A theme is added and a theme file changes: one value serves all calls from
then on, until the options are invalidated once more. -/
theorem never_stale_theme_added :
    let added : Options := ⟨["custom".toList], [], .katex, true⟩
    let calls : List Call := [.resolved, .set added, .invalidate]
    let kept : List Call := [.options, .resolved]
    let dropped : List Call := [.resolved, .invalidate, .options]
    let c := (ofOptions .standard).afterAll calls
    let atEnd (between : List Call) := (ofOptions .standard).afterAll (calls ++ .resolved :: between)
    Call.changes (calls ++ .resolved :: kept) < 2 ^ 64 ∧
      Call.changes (calls ++ .resolved :: dropped) < 2 ^ 64 ∧
      c.options = added ∧ c.generation = 2 ∧ c.resolved.1.value = added.resolve ∧
      (atEnd kept).resolved.1.made = c.resolved.1.made ∧
      (atEnd dropped).resolved.1.made ≠ c.resolved.1.made := by
  intro added calls kept dropped c atEnd
  have hkept : Call.changes (calls ++ .resolved :: kept) < 2 ^ 64 := by decide
  have hdropped : Call.changes (calls ++ .resolved :: dropped) < 2 ^ 64 := by decide
  obtain ⟨hoptions, hgeneration, hvalue, hsame⟩ := never_stale .standard calls kept hkept
  obtain ⟨-, -, -, hother⟩ := never_stale .standard calls dropped hdropped
  have hunchanged : ∀ call ∈ kept, call.isChange = false := by decide
  have hchanged : ¬ ∀ call ∈ dropped, call.isChange = false := by decide
  exact ⟨hkept, hdropped, hoptions, hgeneration, hvalue, hsame.mpr hunchanged,
    fun h => hchanged (hother.mp h)⟩

end SlideDirectives.Editor.OptionsCache
