import SlideDirectives.Text.Basic

/-!
# Options of an editor

An editor names the themes and sizes that it knows beside the built-in ones,
and how it typesets math. Names are trimmed, and blank ones are left out.
-/

set_option autoImplicit false

namespace SlideDirectives.Editor

open Text

inductive MathTypesetting where
  | off
  | katex
  | mathjax
  deriving DecidableEq, Repr

structure Options where
  themes : List (List Char)
  sizes : List (List Char)
  math : MathTypesetting
  reports : Bool
  deriving DecidableEq, Repr

/-- Options with all names that are known, in order. -/
structure Resolved where
  themes : List (List Char)
  sizes : List (List Char)
  math : MathTypesetting
  reports : Bool
  deriving DecidableEq, Repr

def builtinThemes : List (List Char) :=
  ["default", "gaia", "uncover"].map String.toList

def builtinSizes : List (List Char) :=
  ["16:9", "4:3"].map String.toList

def mathLibraries : List (List Char) :=
  ["katex", "mathjax"].map String.toList

def knownNames (builtin custom : List (List Char)) : List (List Char) :=
  distinct (builtin ++ (custom.map trim).filter (! ·.isEmpty))

namespace Options

def standard : Options := ⟨[], [], .katex, true⟩

def resolve (o : Options) : Resolved :=
  ⟨knownNames builtinThemes o.themes, knownNames builtinSizes o.sizes, o.math, o.reports⟩

end Options

namespace Resolved

def hasTheme (r : Resolved) (name : List Char) : Bool :=
  r.themes.contains name

def hasSize (r : Resolved) (name : List Char) : Bool :=
  r.sizes.contains name

end Resolved

end SlideDirectives.Editor
