import SlideDirectives.Text.Basic

/-!
# Characters of YAML

Five characters end a line, and a carriage return with the newline after it
ends one line only. The end of the text counts as a line end wherever a
separator is expected.
-/

set_option autoImplicit false

namespace SlideDirectives.Yaml

open Text

def nextLine : Char := '\x85'
def lineSeparator : Char := '\u2028'
def paragraphSeparator : Char := '\u2029'
def byteOrderMark : Char := '\ufeff'

def isBreak (c : Char) : Bool :=
  c == '\n' || c == '\r' || c == nextLine || c == lineSeparator || c == paragraphSeparator

/-- The line break that a break character stands for in a scalar. -/
def breakText (c : Char) : Char :=
  if c == lineSeparator || c == paragraphSeparator then c else '\n'

def isSpacing (c : Char) : Bool :=
  isGap c || isBreak c

def startsWith (p : Char → Bool) : List Char → Bool
  | [] => false
  | c::_ => p c

def atSpacing : List Char → Bool
  | [] => true
  | c::_ => isSpacing c

def atLineEnd : List Char → Bool
  | [] => true
  | c::_ => isBreak c

def isWord (c : Char) : Bool :=
  c.isAlphanum || c == '_' || c == '-'

def isFlowIndicator (c : Char) : Bool :=
  c == ',' || c == '[' || c == ']' || c == '{' || c == '}'

def isIndicator (c : Char) : Bool :=
  "-?:,[]\x7b\x7d#&*!|>\x27\x22%@\x60".toList.contains c

/-- Control characters other than tabs and line ends may not occur. -/
def isPrintable (c : Char) : Bool :=
  let n := c.toNat
  n == 0x9 || n == 0xA || n == 0xD || (0x20 ≤ n && n ≤ 0x7E) || n == 0x85
    || (0xA0 ≤ n && n ≤ 0xFFFD) || 0x10000 ≤ n

def isThrice (c : Char) : List Char → Bool
  | a::b::d::rest => a == c && b == c && d == c && atSpacing rest
  | _ => false

/-- Three dashes or three dots that stand alone mark the ends of a document
when they open a line. -/
def isDocumentMarker (cs : List Char) : Bool :=
  isThrice '-' cs || isThrice '.' cs

def hexDigit? (c : Char) : Option Nat :=
  if c.isDigit then some (c.toNat - '0'.toNat)
  else if 'a' ≤ c ∧ c ≤ 'f' then some (c.toNat - 'a'.toNat + 10)
  else if 'A' ≤ c ∧ c ≤ 'F' then some (c.toNat - 'A'.toNat + 10)
  else none

end SlideDirectives.Yaml
