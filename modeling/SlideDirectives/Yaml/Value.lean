import SlideDirectives.Number.Binary
import SlideDirectives.Text.Basic

/-!
# Values of YAML

A plain scalar is a whole number in base 2, 8, 10 or 16, or a decimal with a
point or an exponent. Digits behind a leading zero are no number. Two mappings
are the same when they have the same entries in any order.
-/

set_option autoImplicit false

namespace SlideDirectives.Yaml

/-- Whole numbers that are not negative fit 64 bits, negative ones 63 bits. -/
inductive Number where
  | natural (n : Nat)
  | negative (magnitude : Nat)
  | real (b : Binary)
  deriving DecidableEq, Repr

namespace Number

/-- The outcome of reading a scalar as a whole number. A number past 64 bits
but within 128 is refused where a value is wanted. -/
inductive Whole where
  | number (n : Number)
  | tooWide
  deriving DecidableEq, Repr

def digit? (base : Nat) (c : Char) : Option Nat :=
  let d :=
    if c.isDigit then some (c.toNat - '0'.toNat)
    else if c.isLower then some (c.toNat - 'a'.toNat + 10)
    else if c.isUpper then some (c.toNat - 'A'.toNat + 10)
    else none
  d.filter (· < base)

def digits? (base : Nat) (cs : List Char) : Option Nat :=
  if cs.isEmpty then none
  else cs.foldlM (fun n c => (digit? base c).map (n * base + ·)) 0

def isSigned (cs : List Char) : Bool :=
  match cs with
  | '+' :: _ | '-' :: _ => true
  | _ => false

def unsigned (cs : List Char) : List Char :=
  if isSigned cs then cs.tail else cs

def hasLeadingZero (cs : List Char) : Bool :=
  match unsigned cs with
  | '0' :: rest => !rest.isEmpty && rest.all Char.isDigit
  | _ => false

def radix? (cs : List Char) : Option (Nat × List Char) :=
  match cs with
  | '0' :: 'x' :: rest => some (16, rest)
  | '0' :: 'o' :: rest => some (8, rest)
  | '0' :: 'b' :: rest => some (2, rest)
  | _ => none

def marked? (cs : List Char) : Option Nat :=
  (radix? cs).bind (fun (base, rest) => digits? base rest)

def magnitude? (cs unsignedPart : List Char) : Option Nat :=
  (marked? unsignedPart).or (if hasLeadingZero cs then none else digits? 10 unsignedPart)

/-- The limits are those of 64 and 128 bits, with a sign for negatives. -/
def whole? (cs : List Char) : Option Whole :=
  match cs with
  | '-' :: rest =>
    (magnitude? cs rest).bind (fun n =>
      if n = 0 then some (.number (.natural 0))
      else if n ≤ Nat.pow 2 63 then some (.number (.negative n))
      else if n ≤ Nat.pow 2 127 then some .tooWide
      else none)
  | _ =>
    let rest := if cs.head? = some '+' then cs.tail else cs
    if isSigned rest then none
    else (magnitude? cs rest).bind (fun n =>
      if n < Nat.pow 2 64 then some (.number (.natural n))
      else if n < Nat.pow 2 128 then some .tooWide
      else none)

/-- An exponent after its mark. Long ones are cut to a size that keeps their effect. -/
def exponent? (cs : List Char) : Option Int :=
  match cs with
  | [] => some 0
  | e::rest =>
    if e == 'e' || e == 'E' then
      (digits? 10 (unsigned rest)).map (fun n =>
        let n := min n 1000000
        if rest.head? = some '-' then -(n : Int) else n)
    else none

def decimal? (cs : List Char) : Option Binary :=
  let isNegative := cs.head? = some '-'
  let cs := unsigned cs
  let whole := cs.takeWhile Char.isDigit
  let afterWhole := cs.dropWhile Char.isDigit
  let (fraction, afterFraction) :=
    match afterWhole with
    | '.' :: rest => (rest.takeWhile Char.isDigit, rest.dropWhile Char.isDigit)
    | rest => ([], rest)
  if whole.isEmpty && fraction.isEmpty then none
  else do
    let exponent ← exponent? afterFraction
    let digits ← digits? 10 (whole ++ fraction)
    Binary.ofDecimal? isNegative digits (exponent - fraction.length)

def infinities : List (List Char) := [".inf".toList, ".Inf".toList, ".INF".toList]

def notNumbers : List (List Char) := [".nan".toList, ".NaN".toList, ".NAN".toList]

def real? (cs : List Char) : Option Binary :=
  let rest := if cs.head? = some '+' then cs.tail else cs
  if cs.head? = some '+' && isSigned rest then none
  else if infinities.contains rest then some (.infinite false)
  else if cs.head? = some '-' && infinities.contains cs.tail then some (.infinite true)
  else if notNumbers.contains cs then some .nan
  else decimal? rest

end Number

inductive Value where
  | null
  | bool (b : Bool)
  | number (n : Number)
  | string (text : List Char)
  | sequence (items : List Value)
  | mapping (entries : List (Value × Value))
  | tagged (tag : List Char) (value : Value)
  deriving Repr, Inhabited

namespace Value

mutual

def same : Value → Value → Bool
  | .null, .null => true
  | .bool a, .bool b => a == b
  | .number a, .number b => a == b
  | .string a, .string b => a == b
  | .sequence xs, .sequence ys => sameItems xs ys
  | .mapping xs, .mapping ys => xs.length == ys.length && sameEntries xs ys
  | .tagged s a, .tagged t b => s == t && same a b
  | _, _ => false

def sameItems : List Value → List Value → Bool
  | [], [] => true
  | x::xs, y::ys => same x y && sameItems xs ys
  | _, _ => false

def sameEntries : List (Value × Value) → List (Value × Value) → Bool
  | [], _ => true
  | (k, v)::xs, ys => ys.any (fun e => same k e.1 && same v e.2) && sameEntries xs ys

end

end Value

end SlideDirectives.Yaml
