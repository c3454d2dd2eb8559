import SlideDirectives.Yaml.Decode
import SlideDirectives.Yaml.Entry

/-!
# Outlines

An outline is the top level of a text: the pairs of a block mapping with their
places, a scalar, or the length of a sequence. Values keep their spelling: a
pair reports the decoded text of strings and the written text of all else. A
mapping that repeats a key has one pair for each time it is written.
-/

set_option autoImplicit false

namespace SlideDirectives.Yaml

open Text

structure Item where
  text : List Char
  span : Span
  deriving DecidableEq, Repr

structure Pair where
  key : Item
  value : Option Item
  deriving DecidableEq, Repr

inductive Outline where
  | mapping (pairs : List Pair)
  | scalar (text : List Char)
  | sequence (length : Nat)
  | malformed
  deriving DecidableEq, Repr

abbrev Decoder := List Char → Except Fault Value

def dropReturns : List Char → List Char
  | [] => []
  | '\r' :: '\n' :: cs => '\n' :: dropReturns cs
  | c::cs => c :: dropReturns cs

/-- Carriage returns before newlines and one at the very end are removed. -/
def clean (source : List Char) : List Char :=
  let text := dropReturns source
  if text.getLast? = some '\r' then text.dropLast else text

/-- A repeated key at the top level. What is said of a fault below a key starts
with the path, so a key can be spelled such that a fault below it is taken for a
repetition at the top. -/
def Fault.isTopDuplicate : Fault → Bool
  | .duplicateKey path => path == ['.'] || "duplicate entry".toList.isPrefixOf path
  | .invalidValue path => "duplicate entry".toList.isPrefixOf path
  | .malformed => false

namespace Outline

def unquote (decode : Decoder) (raw : List Char) : List Char :=
  if raw.head?.any Entry.isQuote then
    match decode raw with
    | .ok (.string text) => text
    | _ => raw
  else raw

/-- The text of a scalar key. Numbers with a fraction are left out, since
whatever is spelled like one also decodes to it. -/
def keyText? : Value → Option (List Char)
  | .string text => some text
  | .bool b => some (if b then "true".toList else "false".toList)
  | .number (.natural n) => some (Nat.toDigits 10 n)
  | .number (.negative n) => some ('-' :: Nat.toDigits 10 n)
  | .number (.real _) => none
  | .null => some []
  | .tagged _ v => keyText? v
  | .sequence _ => some []
  | .mapping _ => some []

def isKey (decode : Decoder) (raw : List Char) (key : Value) : Bool :=
  match decode raw with
  | .ok v => v.same key
  | .error _ => keyText? key == some (unquote decode raw)

def takeKey (p : Value → Bool) : List (Value × Value) → Option (Value × List (Value × Value))
  | [] => none
  | e::es => if p e.1 then some (e.2, es) else (takeKey p es).map (fun r => (r.1, e :: r.2))

def valueText (raw : List Char) : Value → List Char
  | .string text => text
  | _ => raw

/-- Pairs for the entries that the decoded mapping still has. -/
def locate (decode : Decoder) (source : List Char) :
    List Entry → List (Value × Value) → List Pair
  | [], _ => []
  | e::es, unused =>
    let raw := slice source e.key
    match takeKey (isKey decode raw) unused with
    | none => locate decode source es unused
    | some (v, rest) =>
      let value := e.value.map (fun s => ⟨valueText (slice source s) v, s⟩)
      ⟨⟨unquote decode raw, e.key⟩, value⟩ :: locate decode source es rest

def locateEach? (decode : Decoder) (source : List Char) : List Entry → Option (List Pair)
  | [] => some []
  | e::es =>
    match decode (clean (slice source ⟨e.key.start, e.stop⟩)) with
    | .error _ => none
    | .ok (.mapping found) =>
      (locateEach? decode source es).map (locate decode source [e] found ++ ·)
    | .ok _ => locateEach? decode source es

def ofValue (decode : Decoder) (source : List Char) : Value → Outline
  | .mapping found => .mapping (locate decode source (entries source) found)
  | .sequence items => .sequence items.length
  | .tagged _ v => ofValue decode source v
  | .null => .scalar []
  | .string text => .scalar text
  | .bool _ => .scalar (trim source)
  | .number _ => .scalar (trim source)

def readWith (decode : Decoder) (source : List Char) : Outline :=
  let text := clean source
  if (trim text).isEmpty then .scalar []
  else match decode text with
    | .ok v => ofValue decode source v
    | .error fault =>
      if fault.isTopDuplicate then
        match locateEach? decode source (entries source) with
        | none => .malformed
        | some [] => .malformed
        | some pairs => .mapping pairs
      else .malformed

def read (source : List Char) : Outline :=
  readWith decode source

def pairs : Outline → List Pair
  | .mapping ps => ps
  | _ => []

end Outline

end SlideDirectives.Yaml
