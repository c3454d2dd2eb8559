import SlideDirectives.Editor.Options

/-!
# Options that are resolved once

Every change of the options starts a generation. The resolved options are kept
with the generation that they were made in, and made again in a later one.
Generations are counted in 64 bits.
-/

set_option autoImplicit false

namespace SlideDirectives.Editor

/-- A value that is handed out as often as it is asked for. Its number tells it
from all others that the cache makes, also from those that are equal to it. -/
structure Shared where
  made : Nat
  value : Resolved
  deriving DecidableEq, Repr

structure Held where
  generation : UInt64
  shared : Shared
  deriving DecidableEq, Repr

/-- The next value that is made gets the number `made`. -/
structure OptionsCache where
  options : Options
  counter : UInt64
  held : Option Held
  made : Nat
  deriving DecidableEq, Repr

namespace OptionsCache

def ofOptions (o : Options) : OptionsCache := ⟨o, 0, none, 0⟩

def generation (c : OptionsCache) : Nat :=
  c.counter.toNat

def invalidate (c : OptionsCache) : OptionsCache :=
  { c with counter := c.counter + 1 }

def set (c : OptionsCache) (o : Options) : OptionsCache :=
  { c with options := o }.invalidate

def fresh? (c : OptionsCache) : Option Shared :=
  (c.held.filter (·.generation == c.counter)).map Held.shared

def make (c : OptionsCache) : Shared × OptionsCache :=
  let shared : Shared := ⟨c.made, c.options.resolve⟩
  (shared, { c with held := some ⟨c.counter, shared⟩, made := c.made + 1 })

def resolved (c : OptionsCache) : Shared × OptionsCache :=
  match c.fresh? with
  | some shared => (shared, c)
  | none => c.make

end OptionsCache

end SlideDirectives.Editor
