/-!
# Directives

A directive is known by its name. It applies to the whole deck or to single
slides, and may be written in some contexts only. A key is recognised when it is
the name of a directive that its context allows. Otherwise a local directive is
recognised by its scoped spelling.
-/

set_option autoImplicit false

namespace SlideDirectives

inductive Scope where
  | whole
  | slide
  deriving DecidableEq, Repr

def Scope.label : Scope → String
  | .whole => "global"
  | .slide => "local"

inductive Context where
  | frontMatter
  | comment
  deriving DecidableEq, Repr

inductive Provider where
  | framework
  | core
  | commandLine
  | editor
  deriving DecidableEq, Repr

def Provider.label : Provider → String
  | .framework => "Marpit"
  | .core => "Marp Core"
  | .commandLine => "Marp CLI"
  | .editor => "Marp for VS Code"

structure Definition where
  name : List Char
  scope : Scope
  allowed : List Context
  provider : Provider
  description : String
  reference : String
  offersValues : Bool
  deriving DecidableEq, Repr

namespace Definition

def allows (d : Definition) (context : Context) : Bool :=
  d.allowed.contains context

def isGlobal (d : Definition) : Bool :=
  d.scope == .whole

def isLocal (d : Definition) : Bool :=
  d.scope == .slide

/-- The spelling that limits a local directive to its own slide. -/
def scopedName (d : Definition) : List Char :=
  '_' :: d.name

end Definition

/-- Definitions in their declared order, with distinct names. -/
structure Registry where
  definitions : List Definition
  deriving Repr

structure Recognised where
  definition : Definition
  isScoped : Bool
  deriving DecidableEq, Repr

namespace Registry

def get? (r : Registry) (name : List Char) : Option Definition :=
  r.definitions.find? (fun d => d.name == name)

def plain? (r : Registry) (key : List Char) (context : Context) : Option Recognised :=
  ((r.get? key).filter (·.allows context)).map (⟨·, false⟩)

def scoped? (r : Registry) (key : List Char) (context : Context) : Option Recognised :=
  match key with
  | '_' :: name =>
    ((r.get? name).filter (fun d => d.isLocal && d.allows context)).map (⟨·, true⟩)
  | _ => none

def lookup? (r : Registry) (key : List Char) (context : Context) : Option Recognised :=
  (r.plain? key context).or (r.scoped? key context)

end Registry

end SlideDirectives
