/-!
# Texts

A text is a list of characters, so that what is trimmed off stays available as a
prefix or a suffix. A blank character is one with the Unicode property
`White_Space`. Texts are ordered by their characters, which is also the order of
their UTF-8 bytes. A set of texts is kept as a list in that order without
repetitions, and a text is looked for in it by halves.
-/

set_option autoImplicit false

namespace SlideDirectives.Text

def blankCodes : List Nat :=
  [0x9, 0xA, 0xB, 0xC, 0xD, 0x20, 0x85, 0xA0, 0x1680,
   0x2000, 0x2001, 0x2002, 0x2003, 0x2004, 0x2005, 0x2006, 0x2007, 0x2008, 0x2009, 0x200A,
   0x2028, 0x2029, 0x202F, 0x205F, 0x3000]

def isBlank (c : Char) : Bool :=
  blankCodes.contains c.toNat

def isGap (c : Char) : Bool :=
  c == ' ' || c == '\t'

def trimStart (cs : List Char) : List Char :=
  cs.dropWhile isBlank

/-- The longest suffix of characters that satisfy `p` is removed. -/
def dropEndWhile (p : Char → Bool) (cs : List Char) : List Char :=
  (cs.reverse.dropWhile p).reverse

def trimEnd (cs : List Char) : List Char :=
  dropEndWhile isBlank cs

def trim (cs : List Char) : List Char :=
  trimEnd (trimStart cs)

def lower (cs : List Char) : List Char :=
  cs.map Char.toLower

def contains (part : List Char) : List Char → Bool
  | [] => part.isEmpty
  | c::cs => part.isPrefixOf (c::cs) || contains part cs

def order : List Char → List Char → Ordering
  | [], [] => .eq
  | [], _ :: _ => .lt
  | _ :: _, [] => .gt
  | a :: as, b :: bs => (compare a.toNat b.toNat).then (order as bs)

def insertDistinct (t : List Char) : List (List Char) → List (List Char)
  | [] => [t]
  | u :: us =>
    match order t u with
    | .lt => t :: u :: us
    | .eq => u :: us
    | .gt => u :: insertDistinct t us

def distinct (ts : List (List Char)) : List (List Char) :=
  ts.foldr insertDistinct []

/-- Whether a text is in a list, which is halved at the text in its middle. -/
def search (t : List Char) : List (List Char) → Bool
  | [] => false
  | [u] => order u t == .eq
  | u :: v :: us =>
    let all := u :: v :: us
    let half := all.length / 2
    have hhalf : half < all.length := Nat.div_lt_self (Nat.succ_pos _) (Nat.lt_succ_self 1)
    if order all[half] t = .gt then search t (all.take (all.length - half))
    else search t (all.drop half)
termination_by us => us.length
decreasing_by
  all_goals
    simp only [List.length_take, List.length_drop, List.length_cons]
    omega

end SlideDirectives.Text
