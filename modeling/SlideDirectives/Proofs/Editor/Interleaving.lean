import Mathlib.Algebra.Order.Ring.Nat
import Mathlib.Data.List.Forall2
import SlideDirectives.Editor.Batch.Workers

/-!
# Every order of work gives the same batch

Updates of the counters may be swapped, so those that are made and those that
are still to be made count up to the same numbers at every moment. Each step
brings a document closer to its outcome and none keeps the workers from going
on, so in the end all outcomes are there, and the counters speak of them.
-/

set_option autoImplicit false

namespace SlideDirectives.Editor.Batch

namespace Stats

theorem apply_comm (s : Stats) (u v : Update) : (s.apply u).apply v = (s.apply v).apply u := by
  cases u with
  | reported m =>
    cases v with
    | reported n =>
      have hcounts : s.diagnostics + UInt32.ofNat m + UInt32.ofNat n =
          s.diagnostics + UInt32.ofNat n + UInt32.ofNat m := by
        rw [UInt32.add_assoc, UInt32.add_comm (UInt32.ofNat m), UInt32.add_assoc]
      exact congrArg (Stats.mk s.total s.succeeded s.failed) hcounts
    | _ => rfl
  | _ => cases v <;> rfl

theorem foldl_apply_perm {us vs : List Update} (h : us.Perm vs) (s : Stats) :
    us.foldl apply s = vs.foldl apply s :=
  h.foldl_eq' (fun u _ v _ s => apply_comm s u v) s

def adding (s : Stats) (rs : List Outcome) : Stats :=
  ⟨s.total,
    s.succeeded + UInt32.ofNat (rs.countP (·.diagnostics?.isSome)),
    s.failed + UInt32.ofNat (rs.countP (·.error?.isSome)),
    s.diagnostics + UInt32.ofNat (rs.map (fun r => (r.diagnostics?.getD []).length)).sum⟩

theorem adding_cons (s : Stats) (r : Outcome) (rs : List Outcome) :
    s.adding (r :: rs) = (r.updates.foldl apply s).adding rs := by
  cases hresult : r.result <;>
    simp [adding, apply, Outcome.updates, Outcome.diagnostics?, Outcome.error?, hresult,
      UInt32.ofNat_add, UInt32.add_assoc, UInt32.add_comm]

theorem foldl_updates (s : Stats) (rs : List Outcome) :
    (rs.flatMap Outcome.updates).foldl apply s = s.adding rs := by
  induction rs generalizing s with
  | nil => simp [adding]
  | cons r rs ih => rw [List.flatMap_cons, List.foldl_append, ih, adding_cons]

theorem succeeded_add_failed (n : Nat) (rs : List Outcome) (h : rs.length = n) :
    ((ofTotal n).adding rs).succeeded + ((ofTotal n).adding rs).failed =
      ((ofTotal n).adding rs).total := by
  have hcount : rs.countP (·.diagnostics?.isSome) + rs.countP (·.error?.isSome) = rs.length := by
    rw [List.length_eq_countP_add_countP (·.diagnostics?.isSome)]
    congr 2
    funext r
    cases hresult : r.result <;> simp [Outcome.diagnostics?, Outcome.error?, hresult]
  simp only [adding, ofTotal, UInt32.zero_add, ← UInt32.ofNat_add, hcount, h]

end Stats

namespace Task

variable (parse : Markdown.Parser) (o : Resolved)

def expected : Task → Outcome
  | .waiting i => outcome parse o i
  | .running r _ => r
  | .done r => r

def due : Task → List Update
  | .waiting i => (outcome parse o i).updates
  | .running _ left => left
  | .done _ => []

def work : Task → Nat
  | .waiting i => (outcome parse o i).updates.length + 2
  | .running _ left => left.length + 1
  | .done _ => 0

end Task

namespace Progress

variable {parse : Markdown.Parser} {o : Resolved} {workers : Nat}

/-- The counters when all updates that are due will have been made. -/
def settled (parse : Markdown.Parser) (o : Resolved) (p : Progress) : Stats :=
  (p.tasks.flatMap (Task.due parse o)).foldl Stats.apply p.stats

def work (parse : Markdown.Parser) (o : Resolved) (p : Progress) : Nat :=
  (p.tasks.map (Task.work parse o)).sum

section Step

variable {p q : Progress}

theorem Step.expected (h : Step parse o workers p q) :
    q.tasks.map (Task.expected parse o) = p.tasks.map (Task.expected parse o) := by
  cases h <;> simp [Task.expected]

theorem Step.settled (h : Step parse o workers p q) : q.settled parse o = p.settled parse o := by
  cases h with
  | start before after hfree => simp [Progress.settled, Task.due]
  | @update before after r u left stats =>
    have hperm : (before.flatMap (Task.due parse o) ++ u :: (left ++ after.flatMap (Task.due parse o))).Perm
        (u :: (before.flatMap (Task.due parse o) ++ (left ++ after.flatMap (Task.due parse o)))) :=
      List.perm_middle
    simp only [Progress.settled, List.flatMap_append, List.flatMap_cons, Task.due, List.cons_append]
    rw [Stats.foldl_apply_perm hperm, List.foldl_cons]
  | finish before after => simp [Progress.settled, Task.due]

theorem Step.work (h : Step parse o workers p q) : p.work parse o = q.work parse o + 1 := by
  cases h <;>
    simp only [Progress.work, List.map_append, List.map_cons, List.sum_append, List.sum_cons,
      Task.work, List.length_cons, List.length_nil] <;>
    omega

/-- As long as there is work and anyone to do it, some step can be taken. -/
theorem Step.exists_of_not_done (hworkers : 0 < workers) (h : p.isDone = false) :
    ∃ q, Step parse o workers p q := by
  obtain ⟨tasks, stats⟩ := p
  by_cases hrunning : ∃ t ∈ tasks, t.isRunning = true
  · obtain ⟨t, ht, hrunning⟩ := hrunning
    obtain ⟨before, after, rfl⟩ := List.append_of_mem ht
    cases t with
    | waiting i => cases hrunning
    | done r => cases hrunning
    | running r left =>
      cases left with
      | nil => exact ⟨_, .finish before after⟩
      | cons u left => exact ⟨_, .update before after⟩
  · obtain ⟨t, ht, hundone⟩ := List.all_eq_false.mp h
    have hidle : t.isRunning = false := by
      cases hr : t.isRunning with
      | false => rfl
      | true => exact absurd ⟨t, ht, hr⟩ hrunning
    obtain ⟨before, after, rfl⟩ := List.append_of_mem ht
    cases t with
    | running r left => cases hidle
    | done r => exact absurd rfl hundone
    | waiting i =>
      have hnone : (before ++ after).countP Task.isRunning = 0 := by
        refine List.countP_eq_zero.mpr fun t ht hr => hrunning ⟨t, ?_, hr⟩
        rcases List.mem_append.mp ht with ht | ht
        · exact List.mem_append_left _ ht
        · exact List.mem_append_right _ (List.mem_cons_of_mem _ ht)
      exact ⟨_, .start before after (by omega)⟩

end Step

namespace Steps

variable {n : Nat} {p q : Progress}

theorem expected (h : Steps parse o workers n p q) :
    q.tasks.map (Task.expected parse o) = p.tasks.map (Task.expected parse o) := by
  induction h with
  | none => rfl
  | more hstep _ ih => exact ih.trans hstep.expected

theorem settled (h : Steps parse o workers n p q) : q.settled parse o = p.settled parse o := by
  induction h with
  | none => rfl
  | more hstep _ ih => exact ih.trans hstep.settled

theorem work (h : Steps parse o workers n p q) : p.work parse o = q.work parse o + n := by
  induction h with
  | none => rfl
  | more hstep _ ih =>
    have hwork := hstep.work
    omega

end Steps

section Start

theorem expected_ofInputs (parse : Markdown.Parser) (o : Resolved) (inputs : List Input) :
    (ofInputs inputs).tasks.map (Task.expected parse o) = inputs.map (outcome parse o) := by
  simp [ofInputs, Task.expected]

theorem settled_ofInputs (parse : Markdown.Parser) (o : Resolved) (inputs : List Input) :
    (ofInputs inputs).settled parse o =
      (Stats.ofTotal inputs.length).adding (inputs.map (outcome parse o)) := by
  rw [← Stats.foldl_updates, settled, ofInputs, List.flatMap_map, List.flatMap_map]
  rfl

theorem work_ofInputs_le (parse : Markdown.Parser) (o : Resolved) (inputs : List Input) :
    (ofInputs inputs).work parse o ≤ 4 * inputs.length := by
  induction inputs with
  | nil => exact Nat.zero_le _
  | cons i inputs ih =>
    have hupdates : (outcome parse o i).updates.length ≤ 2 := by
      rw [Outcome.updates]
      cases (outcome parse o i).result <;> simp
    simp only [work, ofInputs, List.map_cons, List.sum_cons, List.length_cons, Task.work] at *
    omega

end Start

section Done

variable {p : Progress}

theorem outcomes_of_done (h : p.isDone = true) : p.outcomes = p.tasks.map (Task.expected parse o) := by
  obtain ⟨tasks, stats⟩ := p
  induction tasks with
  | nil => rfl
  | cons t tasks ih =>
    obtain ⟨ht, hrest⟩ := List.all_cons.trans h |> Bool.and_eq_true_iff.mp
    cases t with
    | done r => exact congrArg (r :: ·) (ih hrest)
    | waiting i => cases ht
    | running r left => cases ht

theorem settled_of_done (h : p.isDone = true) : p.settled parse o = p.stats := by
  have hdue : p.tasks.flatMap (Task.due parse o) = [] := by
    refine List.flatMap_eq_nil_iff.mpr fun t ht => ?_
    have hdone := List.all_eq_true.mp h t ht
    cases t with
    | done r => rfl
    | waiting i => cases hdone
    | running r left => cases hdone
  rw [settled, hdue]
  rfl

end Done

end Progress

/-- The outcome is what diagnosing the document on its own gives. -/
structure Outcome.Answers (parse : Markdown.Parser) (o : Resolved) (i : Input) (r : Outcome) :
    Prop where
  id : r.id = i.id
  found : ∀ ds, diagnose o i.source parse = .ok ds → r.diagnostics? = some ds ∧ r.error? = none
  failed : ∀ f, diagnose o i.source parse = .error f →
    r.diagnostics? = none ∧ r.error? = some f.message

theorem outcome_answers (parse : Markdown.Parser) (o : Resolved) (i : Input) :
    (outcome parse o i).Answers parse o i := by
  constructor
  · rfl
  · intro ds h
    simp [outcome, Outcome.diagnostics?, Outcome.error?, h]
  · intro f h
    simp [outcome, Outcome.diagnostics?, Outcome.error?, h]

/-- The counters, each modulo the size of a word, count so many documents with
these outcomes. -/
structure Stats.Counts (s : Stats) (documents : Nat) (rs : List Outcome) : Prop where
  total : s.total = UInt32.ofNat documents
  balanced : s.succeeded + s.failed = s.total
  succeeded : s.succeeded = UInt32.ofNat (rs.countP (·.diagnostics?.isSome))
  failed : s.failed = UInt32.ofNat (rs.countP (·.error?.isSome))
  diagnostics : s.diagnostics =
    UInt32.ofNat (rs.map (fun r => (r.diagnostics?.getD []).length)).sum

theorem Stats.counts_adding (rs : List Outcome) :
    ((ofTotal rs.length).adding rs).Counts rs.length rs := by
  constructor
  · rfl
  · exact succeeded_add_failed _ rs rfl
  · exact UInt32.zero_add _
  · exact UInt32.zero_add _
  · exact UInt32.zero_add _

/-- However many workers there are and in whatever order they go about it, a
batch is done within four steps for each document, always has a step to take
until then, and comes to the outcomes of the documents on their own, in order,
with counters that agree with them. -/
theorem steps_report (o : Options) (inputs : List Input) (pool? : UInt32 → Option Nat)
    (standing : Nat) (hpool : ∀ size n, pool? size = some n → 0 < n) (hstanding : 0 < standing)
    (parse : Markdown.Parser) {n : Nat} {p : Progress}
    (h : Progress.Steps parse o.options.resolve (o.workers pool? standing) n (.ofInputs inputs) p) :
    n ≤ 4 * inputs.length ∧
      (p.isDone = true ∨
        ∃ q, Progress.Step parse o.options.resolve (o.workers pool? standing) p q) ∧
      (p.isDone = true →
        List.Forall₂ (Outcome.Answers parse o.options.resolve) inputs p.outcomes ∧
          p.stats.Counts inputs.length p.outcomes ∧
          (p.outcomes, p.stats) = run o inputs parse) := by
  refine ⟨?_, ?_, fun hdone => ?_⟩
  · have hwork := h.work
    have hbound := Progress.work_ofInputs_le parse o.options.resolve inputs
    omega
  · have hworkers : 0 < o.workers pool? standing := by
      rw [Options.workers]
      cases hsize : o.maxThreads.bind pool? with
      | none => exact hstanding
      | some n =>
        obtain ⟨size, -, hn⟩ := Option.bind_eq_some_iff.mp hsize
        exact hpool size n hn
    cases hdone : p.isDone with
    | true => exact Or.inl rfl
    | false => exact Or.inr (Progress.Step.exists_of_not_done hworkers hdone)
  · have houtcomes : p.outcomes = inputs.map (outcome parse o.options.resolve) := by
      rw [Progress.outcomes_of_done hdone, h.expected, Progress.expected_ofInputs]
    have hstats : p.stats = (Stats.ofTotal inputs.length).adding p.outcomes := by
      rw [houtcomes, ← Progress.settled_ofInputs, ← h.settled, Progress.settled_of_done hdone]
    have hlength : p.outcomes.length = inputs.length := by
      rw [houtcomes, List.length_map]
    refine ⟨?_, ?_, ?_⟩
    · rw [houtcomes, List.forall₂_map_right_iff, List.forall₂_same]
      exact fun i _ => outcome_answers _ _ i
    · rw [hstats, ← hlength]
      exact Stats.counts_adding p.outcomes
    · rw [hstats, houtcomes, run, Stats.ofUpdates, Stats.foldl_updates]

/-- Two workers at the same time on a document that cannot be read and on one
with an unknown theme, which is finished last and counted in between. -/
theorem steps_report_two_workers :
    let unreadable : Input := ⟨['a'], "<div><select><xmp><!-- a --></xmp></select></div>".toList⟩
    let unknown : Input := ⟨['b'], "<!-- theme: x -->".toList⟩
    let o : Options := ⟨some 2, .standard⟩
    let parse := Markdown.parse .slideDeck
    let pool? : UInt32 → Option Nat := fun size => some (if size = 0 then 8 else size.toNat)
    ∃ p, Progress.Steps parse o.options.resolve (o.workers pool? 8) 7 (.ofInputs [unreadable, unknown]) p ∧
      p.isDone = true ∧ p.stats = ⟨2, 1, 1, 1⟩ ∧
      List.Forall₂ (Outcome.Answers parse o.options.resolve) [unreadable, unknown] p.outcomes ∧
      p.stats.Counts 2 p.outcomes ∧ (p.outcomes, p.stats) = run o [unreadable, unknown] := by
  intro unreadable unknown o parse pool?
  have hpool : ∀ size n, pool? size = some n → 0 < n := by
    rintro size _ ⟨⟩
    split
    · decide
    · next hsize =>
      exact Nat.pos_of_ne_zero fun hzero => hsize (UInt32.toNat_inj.mp hzero)
  have hfault : (Deck.pass unreadable.source).toExcept = .error (.html "xmp".toList) := by
    decide +kernel
  have hevents : (Deck.pass unknown.source).toExcept = .ok (Deck.pass unknown.source).events := by
    have hnone : (Deck.pass unknown.source).fault = none := by decide +kernel
    rw [Deck.Delivery.toExcept, hnone]
  have hcount : (findings (allRules o.options.resolve) (Deck.pass unknown.source).events).length =
      1 := by
    rw [length_findings]
    decide +kernel
  have hfailed : (outcome parse o.options.resolve unreadable).updates = [.failed] := by
    rw [outcome, diagnose_of_fault rfl hfault]
    rfl
  have hfound : (outcome parse o.options.resolve unknown).updates = [.succeeded, .reported 1] := by
    rw [outcome, diagnose_of_events rfl hevents]
    simp only [Outcome.updates, hcount]
  generalize ha : outcome parse o.options.resolve unreadable = a at hfailed
  generalize hb : outcome parse o.options.resolve unknown = b at hfound
  have hsteps : Progress.Steps parse o.options.resolve (o.workers pool? 8) 7
      (.ofInputs [unreadable, unknown]) ⟨[.done a, .done b], ⟨2, 1, 1, 1⟩⟩ := by
    have hnone : 0 < 2 := by decide
    have hone : 1 < 2 := by decide
    refine .more (.start [.waiting unreadable] [] hnone) ?_
    rw [hb, hfound]
    refine .more (.update [.waiting unreadable] []) ?_
    refine .more (.start [] _ hone) ?_
    rw [ha, hfailed]
    refine .more (.update [] _) ?_
    refine .more (.finish [] _) ?_
    refine .more (.update [.done a] []) ?_
    exact .more (.finish [.done a] []) .none
  obtain ⟨-, -, hreport⟩ :=
    steps_report o [unreadable, unknown] pool? 8 hpool (by decide) parse hsteps
  exact ⟨_, hsteps, rfl, rfl, hreport rfl⟩

end SlideDirectives.Editor.Batch
