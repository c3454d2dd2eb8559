/-!
# Bytes and lines of a text

Offsets count the bytes of the UTF-8 form, and a span is a half-open range of
them. `takeBytes` and `dropBytes` cut at the last character boundary that is not
past the offset, so they split every text without loss. A text is cut into lines
after each newline character; a carriage return is an ordinary character of its
line.
-/

set_option autoImplicit false

namespace SlideDirectives.Text

structure Span where
  start : Nat
  stop : Nat
  deriving DecidableEq, Repr, Inhabited

namespace Span

def shift (s : Span) (offset : Nat) : Span :=
  ⟨s.start + offset, s.stop + offset⟩

def size (s : Span) : Nat :=
  s.stop - s.start

def isEmpty (s : Span) : Bool :=
  s.start == s.stop

/-- Both ends count as inside. -/
def touches (s : Span) (offset : Nat) : Bool :=
  s.start ≤ offset && offset ≤ s.stop

theorem shift_start (s : Span) (n : Nat) : (s.shift n).start = s.start + n := rfl

theorem shift_stop (s : Span) (n : Nat) : (s.shift n).stop = s.stop + n := rfl

theorem shift_shift (s : Span) (m n : Nat) : (s.shift m).shift n = s.shift (m + n) := by
  simp [shift, Nat.add_assoc]

end Span

def byteSize : List Char → Nat
  | [] => 0
  | c::cs => c.utf8Size + byteSize cs

def takeBytes : Nat → List Char → List Char
  | _, [] => []
  | n, c::cs => if c.utf8Size ≤ n then c :: takeBytes (n - c.utf8Size) cs else []

def dropBytes : Nat → List Char → List Char
  | _, [] => []
  | n, c::cs => if c.utf8Size ≤ n then dropBytes (n - c.utf8Size) cs else c::cs

def slice (cs : List Char) (s : Span) : List Char :=
  takeBytes s.size (dropBytes s.start cs)

/-- The offsets at which a character starts, and the end of the text. -/
def isBoundary (cs : List Char) (n : Nat) : Bool :=
  byteSize (takeBytes n cs) == n

theorem takeBytes_append_dropBytes (n : Nat) (cs : List Char) :
    takeBytes n cs ++ dropBytes n cs = cs := by
  induction cs generalizing n with
  | nil => rfl
  | cons c cs ih =>
    by_cases h : c.utf8Size ≤ n
    · simp [takeBytes, dropBytes, h, ih]
    · simp [takeBytes, dropBytes, h]

theorem byteSize_append (xs ys : List Char) : byteSize (xs ++ ys) = byteSize xs + byteSize ys := by
  induction xs with
  | nil => simp [byteSize]
  | cons c cs ih => simp [byteSize, ih, Nat.add_assoc]

theorem byteSize_takeBytes_le (n : Nat) (cs : List Char) : byteSize (takeBytes n cs) ≤ n := by
  induction cs generalizing n with
  | nil => simp [takeBytes, byteSize]
  | cons c cs ih =>
    by_cases h : c.utf8Size ≤ n
    · have := ih (n - c.utf8Size)
      simp only [takeBytes, if_pos h, byteSize]
      omega
    · simp [takeBytes, h, byteSize]

theorem takeBytes_zero (cs : List Char) : takeBytes 0 cs = [] := by
  cases cs with
  | nil => rfl
  | cons c cs =>
    have := c.utf8Size_pos
    simp only [takeBytes]
    rw [if_neg (by omega)]

theorem takeBytes_byteSize_append (xs ys : List Char) : takeBytes (byteSize xs) (xs ++ ys) = xs := by
  induction xs with
  | nil => exact takeBytes_zero ys
  | cons c cs ih => simp [takeBytes, byteSize, ih]

theorem dropBytes_byteSize_append (xs ys : List Char) : dropBytes (byteSize xs) (xs ++ ys) = ys := by
  have h := takeBytes_append_dropBytes (byteSize xs) (xs ++ ys)
  rw [takeBytes_byteSize_append] at h
  exact List.append_cancel_left h

structure Line where
  content : List Char
  ended : Bool
  deriving DecidableEq, Repr, Inhabited

namespace Line

def size (l : Line) : Nat :=
  byteSize l.content + l.ended.toNat

def chars (l : Line) : List Char :=
  if l.ended then l.content ++ ['\n'] else l.content

end Line

def consLine (c : Char) : List Line → List Line
  | [] => [⟨[c], false⟩]
  | l::ls => ⟨c::l.content, l.ended⟩ :: ls

/-- The empty text has no line, and no empty line follows the last newline. -/
def lines : List Char → List Line
  | [] => []
  | c::cs => if c = '\n' then ⟨[], true⟩ :: lines cs else consLine c (lines cs)

theorem flatMap_chars_consLine (c : Char) (ls : List Line) :
    (consLine c ls).flatMap Line.chars = c :: ls.flatMap Line.chars := by
  cases ls with
  | nil => rfl
  | cons l ls => cases h : l.ended <;> simp [consLine, Line.chars, h]

theorem flatMap_chars_lines (cs : List Char) : (lines cs).flatMap Line.chars = cs := by
  induction cs with
  | nil => rfl
  | cons c cs ih =>
    by_cases h : c = '\n'
    · simp [lines, h, Line.chars, ih]
    · simp [lines, h, flatMap_chars_consLine, ih]

end SlideDirectives.Text
