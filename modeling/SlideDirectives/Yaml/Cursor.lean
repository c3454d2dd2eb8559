import SlideDirectives.Yaml.Character

/-!
# Cursors and tokens

A mark counts characters, lines and columns. A cursor is a mark with the text
that is still to be read. Tokens are read at a cursor; collections written by
indentation have no brackets in the text, and their tokens are set by the change
of indentation.
-/

set_option autoImplicit false

namespace SlideDirectives.Yaml

structure Mark where
  index : Nat
  line : Nat
  column : Nat
  deriving DecidableEq, Repr, Inhabited

namespace Mark

def start : Mark := ⟨0, 0, 0⟩

def next (m : Mark) : Mark := ⟨m.index + 1, m.line, m.column + 1⟩

def nextLine (m : Mark) (width : Nat) : Mark := ⟨m.index + width, m.line + 1, 0⟩

end Mark

structure Cursor where
  rest : List Char
  mark : Mark
  deriving DecidableEq, Repr, Inhabited

namespace Cursor

def start (text : List Char) : Cursor := ⟨text, Mark.start⟩

def skip (c : Cursor) : Cursor :=
  match c.rest with
  | [] => c
  | _::rest => ⟨rest, c.mark.next⟩

def skipN : Nat → Cursor → Cursor
  | 0, c => c
  | n + 1, c => skipN n c.skip

def skipBreak (c : Cursor) : Cursor :=
  match c.rest with
  | '\r' :: '\n' :: rest => ⟨rest, c.mark.nextLine 2⟩
  | x::rest => if isBreak x then ⟨rest, c.mark.nextLine 1⟩ else c
  | [] => c

def spanGo (p : Char → Bool) (m : Mark) : List Char → List Char × Cursor
  | [] => ([], ⟨[], m⟩)
  | c::cs =>
    if p c then
      let (word, after) := spanGo p m.next cs
      (c::word, after)
    else ([], ⟨c::cs, m⟩)

def span (p : Char → Bool) (c : Cursor) : List Char × Cursor :=
  spanGo p c.mark c.rest

def skipWhile (p : Char → Bool) (c : Cursor) : Cursor :=
  (c.span p).2

def skipComment (c : Cursor) : Cursor :=
  if startsWith (· == '#') c.rest then c.skipWhile (fun x => !isBreak x) else c

def finishLine? (c : Cursor) : Option Cursor :=
  let c := (c.skipWhile Text.isGap).skipComment
  if atLineEnd c.rest then some c.skipBreak else none

end Cursor

inductive ScalarStyle where
  | plain
  | singleQuoted
  | doubleQuoted
  | literal
  | folded
  deriving DecidableEq, Repr

inductive Token where
  | versionDirective (major minor : Nat)
  | tagDirective (handle : List Char) (expansion : List Char)
  | documentStart
  | documentEnd
  | blockSequenceStart
  | blockMappingStart
  | blockEnd
  | flowSequenceStart
  | flowSequenceEnd
  | flowMappingStart
  | flowMappingEnd
  | blockEntry
  | flowEntry
  | key
  | value
  | alias (name : List Char)
  | anchor (name : List Char)
  | tag (handle : List Char) (suffix : List Char)
  | scalar (text : List Char) (style : ScalarStyle)
  | streamEnd
  deriving DecidableEq, Repr

end SlideDirectives.Yaml
