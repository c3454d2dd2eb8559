import SlideDirectives.Editor.Batch

/-!
# Workers on a batch

The documents of a batch are shared out among workers, each with one document at
a time. The counters are the only thing that workers have in common: every
update of one is a step of its own, and the steps of workers come in any order.
-/

set_option autoImplicit false

namespace SlideDirectives.Editor.Batch

/-- How many workers there are: those of a pool of the size asked for if there
is one to be had, else those of the standing pool. -/
def Options.workers (o : Options) (pool? : UInt32 → Option Nat) (standing : Nat) : Nat :=
  (o.maxThreads.bind pool?).getD standing

inductive Task where
  | waiting (i : Input)
  | running (r : Outcome) (left : List Update)
  | done (r : Outcome)
  deriving Repr

namespace Task

def isRunning : Task → Bool
  | .running _ _ => true
  | _ => false

def isDone : Task → Bool
  | .done _ => true
  | _ => false

def outcome? : Task → Option Outcome
  | .done r => some r
  | _ => none

end Task

structure Progress where
  tasks : List Task
  stats : Stats
  deriving Repr

namespace Progress

def ofInputs (inputs : List Input) : Progress :=
  ⟨inputs.map .waiting, Stats.ofTotal inputs.length⟩

def isDone (p : Progress) : Bool :=
  p.tasks.all Task.isDone

def outcomes (p : Progress) : List Outcome :=
  p.tasks.filterMap Task.outcome?

/-- What one of at most so many workers does next: it takes up a document and
diagnoses it, makes an update that its outcome asks for, or hands the outcome
over. -/
inductive Step (parse : Markdown.Parser) (o : Resolved) (workers : Nat) :
    Progress → Progress → Prop where
  | start (before after : List Task) {i : Input} {stats : Stats} :
      (before ++ after).countP Task.isRunning < workers →
      Step parse o workers ⟨before ++ .waiting i :: after, stats⟩
        ⟨before ++ .running (outcome parse o i) (outcome parse o i).updates :: after, stats⟩
  | update (before after : List Task) {r : Outcome} {u : Update} {left : List Update}
      {stats : Stats} :
      Step parse o workers ⟨before ++ .running r (u :: left) :: after, stats⟩
        ⟨before ++ .running r left :: after, stats.apply u⟩
  | finish (before after : List Task) {r : Outcome} {stats : Stats} :
      Step parse o workers ⟨before ++ .running r [] :: after, stats⟩
        ⟨before ++ .done r :: after, stats⟩

inductive Steps (parse : Markdown.Parser) (o : Resolved) (workers : Nat) :
    Nat → Progress → Progress → Prop where
  | none {p : Progress} : Steps parse o workers 0 p p
  | more {n : Nat} {p q r : Progress} :
      Step parse o workers p q → Steps parse o workers n q r → Steps parse o workers (n + 1) p r

end Progress

end SlideDirectives.Editor.Batch
