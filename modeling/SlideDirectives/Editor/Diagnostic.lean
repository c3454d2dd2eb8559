import SlideDirectives.Text.Document

/-!
# Diagnostics

A diagnostic says what a rule found and where. Diagnostics are sorted by the
start and the end of their ranges, and then by a key.
-/

set_option autoImplicit false

namespace SlideDirectives.Editor

open Text

inductive Severity where
  | error
  | warning
  | information
  | hint
  deriving DecidableEq, Repr

inductive RuleName where
  | overloadingGlobal
  | unknownTheme
  | unknownSize
  | dollarPrefix
  | colorShorthand
  | ignoredMath
  | defineMath
  deriving DecidableEq, Repr

namespace RuleName

def all : List RuleName :=
  [.overloadingGlobal, .unknownTheme, .unknownSize, .dollarPrefix, .colorShorthand, .ignoredMath,
    .defineMath]

def code : RuleName → String
  | .overloadingGlobal => "overloading-global-directive"
  | .unknownTheme => "unknown-theme"
  | .unknownSize => "unknown-size"
  | .dollarPrefix => "deprecated-dollar-prefix"
  | .colorShorthand => "deprecated-color-setting-shorthand"
  | .ignoredMath => "ignored-math-global-directive"
  | .defineMath => "define-math-global-directive"

def ofCode? (code : String) : Option RuleName :=
  all.find? (·.code == code)

def severity : RuleName → Severity
  | .defineMath => .information
  | _ => .warning

end RuleName

structure Diagnostic where
  rule : RuleName
  message : String
  range : Range
  deriving DecidableEq, Repr

namespace Diagnostic

def code (d : Diagnostic) : String :=
  d.rule.code

def severity (d : Diagnostic) : Severity :=
  d.rule.severity

def order (key : Diagnostic → String) (a b : Diagnostic) : Ordering :=
  (a.range.start.compare b.range.start).then
    ((a.range.stop.compare b.range.stop).then (compare (key a) (key b)))

def sortOn (key : Diagnostic → String) (ds : List Diagnostic) : List Diagnostic :=
  ds.mergeSort (fun a b => order key a b != .gt)

/-- By range, and then by the code of the rule. -/
def sort (ds : List Diagnostic) : List Diagnostic :=
  sortOn code ds

end Diagnostic

end SlideDirectives.Editor
