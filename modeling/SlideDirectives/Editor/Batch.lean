import SlideDirectives.Editor.Rule

/-!
# Diagnosing many documents

Every document is diagnosed on its own with the same options, so neither their
order nor the number of workers matters. The counters are 32 bits wide and are
updated one at a time.
-/

set_option autoImplicit false

namespace SlideDirectives.Editor.Batch

open Deck

structure Options where
  maxThreads : Option UInt32
  options : Editor.Options
  deriving DecidableEq, Repr

structure Input where
  id : List Char
  source : List Char
  deriving DecidableEq, Repr

structure Outcome where
  id : List Char
  result : Except Fault (List Diagnostic)
  deriving Repr

namespace Outcome

def diagnostics? (r : Outcome) : Option (List Diagnostic) :=
  match r.result with
  | .ok ds => some ds
  | .error _ => none

def error? (r : Outcome) : Option String :=
  match r.result with
  | .ok _ => none
  | .error f => some f.message

end Outcome

structure Stats where
  total : UInt32
  succeeded : UInt32
  failed : UInt32
  diagnostics : UInt32
  deriving DecidableEq, Repr

inductive Update where
  | succeeded
  | failed
  | reported (count : Nat)
  deriving DecidableEq, Repr

def Outcome.updates (r : Outcome) : List Update :=
  match r.result with
  | .ok ds => [.succeeded, .reported ds.length]
  | .error _ => [.failed]

namespace Stats

def ofTotal (n : Nat) : Stats := ⟨UInt32.ofNat n, 0, 0, 0⟩

def apply (s : Stats) : Update → Stats
  | .succeeded => { s with succeeded := s.succeeded + 1 }
  | .failed => { s with failed := s.failed + 1 }
  | .reported count => { s with diagnostics := s.diagnostics + UInt32.ofNat count }

/-- The counts for so many documents after updates in the order in which they
are made. -/
def ofUpdates (total : Nat) (us : List Update) : Stats :=
  us.foldl apply (ofTotal total)

end Stats

def outcome (parse : Markdown.Parser) (o : Resolved) (i : Input) : Outcome :=
  ⟨i.id, diagnose o i.source parse⟩

def run (o : Options) (inputs : List Input)
    (parse : Markdown.Parser := Markdown.parse .slideDeck) : List Outcome × Stats :=
  let outcomes := inputs.map (outcome parse o.options.resolve)
  (outcomes, Stats.ofUpdates inputs.length (outcomes.flatMap Outcome.updates))

end SlideDirectives.Editor.Batch
