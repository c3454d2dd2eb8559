import SlideDirectives.Markdown.Reference
import SlideDirectives.Markdown.Escape

/-!
# What a closing bracket refers to

Behind its label a link has a resource, with a destination and maybe a title,
or the label of a definition; otherwise its own label may be defined.
-/

set_option autoImplicit false

namespace SlideDirectives.Markdown

open Reference

structure Resource where
  url : List Char
  title : Option (List Char)
  deriving DecidableEq, Repr

inductive Link where
  | resource (r : Resource) (rest : List Glyph)
  | reference (rest : List Glyph)
  deriving Repr

namespace Link

def maxOpened : Nat := 32

def part (gs : List Glyph) (tail : List Char) (t : Target) : List Char :=
  textOf ((gs.drop (gs.length - tail.length + t.skipped)).take t.size)

def close? (gs : List Glyph) (r : Resource) (cs : List Char) : Option Link :=
  match skipSpacing cs with
  | ')' :: rest => some (.resource r (gs.drop (gs.length - rest.length)))
  | _ => none

def target? (gs : List Glyph) (cs : List Char) : Option Link := do
  let destination ← destination? (some maxOpened) cs
  let url := part gs cs destination
  let behind := skipSpacing destination.rest
  if behind.length < destination.rest.length && behind.head?.any (fun c => (titleMark? c).isSome)
  then
    let title ← title? behind
    let text := if title.size = 0 then none else some (part gs behind title)
    close? gs ⟨url, text⟩ title.rest
  else close? gs ⟨url, none⟩ destination.rest

def resource? (gs : List Glyph) : Option Link :=
  match skipSpacing (charsOf gs) with
  | ')' :: rest => some (.resource ⟨[], none⟩ (gs.drop (gs.length - rest.length)))
  | cs => target? gs cs

def full? (defined : List (List Char)) (gs : List Glyph) : Option Link := do
  let (label, rest) ← label? (charsOf gs)
  if defined.contains (labelKey label) then some (.reference (gs.drop (gs.length - rest.length)))
  else none

def read? (defined : List (List Char)) (label : List Char) (gs : List Glyph) : Option Link :=
  let known := defined.contains (labelKey label)
  match charsOf (gs.take 2) with
  | '(' :: _ => (resource? gs.tail).or (if known then some (.reference gs) else none)
  | ['[', ']'] => if known then some (.reference (gs.drop 2)) else none
  | '[' :: _ => full? defined gs
  | _ => if known then some (.reference gs) else none

end Link

end SlideDirectives.Markdown
