/-!
# Decimals as binary numbers

A decimal is read as the nearest number with 53 significant binary digits and
the exponent range of a double; a tie goes to the even neighbour. Equal
numbers have equal representations, so zero has no sign.
-/

set_option autoImplicit false

namespace SlideDirectives

/-- `mantissa * 2 ^ exponent`, where the mantissa has 53 digits unless the
exponent is the least one. -/
inductive Binary where
  | nan
  | infinite (negative : Bool)
  | finite (negative : Bool) (mantissa : Nat) (exponent : Int)
  deriving DecidableEq, Repr

namespace Binary

def zero : Binary := .finite false 0 0

def leastExponent : Int := -1074

def greatestExponent : Int := 971

/-- The nearest whole number to a quotient, a tie to the even one. -/
def roundDiv (num den : Nat) : Nat :=
  let q := num / den
  let r := num % den
  if 2 * r < den then q
  else if den < 2 * r then q + 1
  else q + q % 2

def scaledRound (num den : Nat) (exponent : Int) : Nat :=
  if 0 ≤ exponent then roundDiv num (den * Nat.pow 2 exponent.toNat)
  else roundDiv (num * Nat.pow 2 (-exponent).toNat) den

def fits (num den : Nat) (exponent : Int) : Bool :=
  if 0 ≤ exponent then num < den * Nat.pow 2 exponent.toNat * Nat.pow 2 53
  else num * Nat.pow 2 (-exponent).toNat < den * Nat.pow 2 53

def ofQuotient? (negative : Bool) (num den : Nat) : Option Binary :=
  let guess : Int := (num.log2 : Int) - (den.log2 : Int) - 53
  let exponent := if fits num den guess then guess else guess + 1
  let exponent := max exponent leastExponent
  let m := scaledRound num den exponent
  let (m, exponent) := if m = Nat.pow 2 53 then (Nat.pow 2 52, exponent + 1) else (m, exponent)
  if greatestExponent < exponent then none
  else if m = 0 then some zero
  else some (.finite negative m exponent)

def digitCount (n : Nat) : Nat :=
  (Nat.toDigits 10 n).length

def ofDecimal? (negative : Bool) (digits : Nat) (scale : Int) : Option Binary :=
  if digits = 0 then some zero
  else
    let size : Int := digitCount digits + scale
    if 310 < size then none
    else if size < -330 then some zero
    else if 0 ≤ scale then ofQuotient? negative (digits * Nat.pow 10 scale.toNat) 1
    else ofQuotient? negative digits (Nat.pow 10 (-scale).toNat)

end Binary

end SlideDirectives
