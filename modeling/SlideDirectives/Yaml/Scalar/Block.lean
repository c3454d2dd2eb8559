import SlideDirectives.Yaml.Cursor

/-!
# Block scalars

A literal scalar keeps its line breaks, a folded one joins lines that start
with a word. The header may fix the indentation and how the final line breaks
are kept.
-/

set_option autoImplicit false

namespace SlideDirectives.Yaml.Block

inductive Chomping where
  | strip
  | clip
  | keep
  deriving DecidableEq, Repr

structure Header where
  chomping : Chomping
  increment : Option Nat
  deriving DecidableEq, Repr

def chomping? (cs : List Char) : Option Chomping :=
  match cs with
  | '+' :: _ => some .keep
  | '-' :: _ => some .strip
  | _ => none

/-- An indentation of zero cannot be asked for. -/
def increment? (c : Cursor) : Option (Option Nat × Cursor) :=
  match c.rest with
  | '0' :: _ => none
  | x::_ => if x.isDigit then some (some (x.toNat - '0'.toNat), c.skip) else some (none, c)
  | [] => some (none, c)

def header? (c : Cursor) : Option (Header × Cursor) := do
  let c := c.skip
  match chomping? c.rest with
  | some chomping =>
    let (increment, c) ← increment? c.skip
    some (⟨chomping, increment⟩, c)
  | none =>
    let (increment, c) ← increment? c
    match increment, chomping? c.rest with
    | some _, some chomping => some (⟨chomping, increment⟩, c.skip)
    | _, _ => some (⟨.clip, increment⟩, c)

structure Shape where
  folded : Bool
  chomping : Chomping
  least : Nat

/-- `text` is in reverse order. `indent` is unset until a line with a word
has been reached; `widest` is the widest line of spaces before that. -/
structure State where
  text : List Char
  indent : Option Nat
  widest : Nat
  leading : List Char
  trailing : List Char
  leadingGap : Bool
  deriving DecidableEq, Repr

namespace State

def settle (s : State) (shape : Shape) : Nat :=
  s.indent.getD (max s.widest shape.least)

def belowIndent (s : State) (m : Mark) : Bool :=
  match s.indent with
  | none => true
  | some n => m.column < n

/-- The line breaks before a line of content are written out. -/
def openLine (s : State) (shape : Shape) (indent : Nat) (atGap : Bool) : State :=
  let joins := shape.folded && s.leading == ['\n'] && !s.leadingGap && !atGap
  let before :=
    if joins then (if s.trailing.isEmpty then [' '] else []) else s.leading
  { s with
    text := s.trailing.reverse ++ (before.reverse ++ s.text)
    indent := some indent
    leading := []
    trailing := []
    leadingGap := atGap }

def close (s : State) (shape : Shape) : List Char :=
  let tail :=
    match shape.chomping with
    | .strip => []
    | .clip => s.leading
    | .keep => s.leading ++ s.trailing
  s.text.reverse ++ tail

end State

inductive Mode where
  | margin
  | line

def go (shape : Shape) (m : Mark) (s : State) : Mode → List Char → Option (List Char × Cursor)
  | .margin, [] => some (s.close shape, ⟨[], m⟩)
  | .line, [] => some ({ s with leading := [] }.close shape, ⟨[], m⟩)
  | .line, '\r' :: '\n' :: cs => go shape (m.nextLine 2) { s with leading := ['\n'] } .margin cs
  | .line, c::cs =>
    if isBreak c then go shape (m.nextLine 1) { s with leading := [breakText c] } .margin cs
    else go shape m.next { s with text := c::s.text } .line cs
  | .margin, '\r' :: '\n' :: cs =>
    go shape (m.nextLine 2)
      { s with widest := max s.widest m.column, trailing := s.trailing ++ ['\n'] } .margin cs
  | .margin, c::cs =>
    if c == ' ' && s.belowIndent m then go shape m.next s .margin cs
    else if c == '\t' && s.belowIndent m then none
    else
      let s := { s with widest := max s.widest m.column }
      if isBreak c then
        go shape (m.nextLine 1) { s with trailing := s.trailing ++ [breakText c] } .margin cs
      else
        let indent := s.settle shape
        if m.column == indent then
          go shape m.next
            (let s := s.openLine shape indent (Text.isGap c); { s with text := c::s.text }) .line cs
        else some (s.close shape, ⟨c::cs, m⟩)

def scan? (folded : Bool) (parent : Int) (c : Cursor) : Option (List Char × Cursor) := do
  let (header, c) ← header? c
  let c ← c.finishLine?
  let shape : Shape := ⟨folded, header.chomping, max 1 (parent + 1).toNat⟩
  let indent := header.increment.map (fun n => parent.toNat + n)
  go shape c.mark ⟨[], indent, 0, [], [], false⟩ .margin c.rest

end SlideDirectives.Yaml.Block
