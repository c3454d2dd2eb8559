import SlideDirectives.Yaml.Event
import SlideDirectives.Yaml.Value

/-!
# Decoding a text

A text decodes to the value of its only document. Plain scalars are resolved
by their spelling. The first fault met while the value is built wins. A scalar
that spells no value and a mapping with a repeated key are faults of their own,
each with the path to it.
-/

set_option autoImplicit false

namespace SlideDirectives.Yaml

inductive Fault where
  | duplicateKey (path : List Char)
  | invalidValue (path : List Char)
  | malformed
  deriving DecidableEq, Repr

namespace Decode

inductive Node where
  | alias (number : Nat)
  | scalar (tag : Option (List Char)) (text : List Char) (style : ScalarStyle)
  | sequenceStart (tag : Option (List Char))
  | sequenceEnd
  | mappingStart (tag : Option (List Char))
  | mappingEnd
  deriving DecidableEq, Repr

structure Anchors where
  names : List (List Char × Nat)
  places : List (Nat × Nat)
  deriving Repr

namespace Anchors

def none : Anchors := ⟨[], []⟩

/-- A name that is set again takes the number that the next name will have,
so it then shares the place of that name. -/
def set (a : Anchors) (anchor : Option (List Char)) (place : Nat) : Anchors :=
  match anchor with
  | Option.none => a
  | some name =>
    let number := a.names.length
    let names := a.names.filter (fun e => e.1 != name)
    ⟨(name, number) :: names, (number, place) :: a.places⟩

end Anchors

def linkGo (a : Anchors) (place : Nat) : List Event → List Node × Anchors × Bool
  | [] => ([], a, true)
  | e::es =>
    let go (a : Anchors) (n : Node) : List Node × Anchors × Bool :=
      let (nodes, a, whole) := linkGo a (place + 1) es
      (n::nodes, a, whole)
    match e with
    | .alias name =>
      match a.names.lookup name with
      | some number => go a (.alias number)
      | none => ([], a, false)
    | .scalar p text style => go (a.set p.anchor place) (.scalar p.tag text style)
    | .sequenceStart p => go (a.set p.anchor place) (.sequenceStart p.tag)
    | .sequenceEnd => go a .sequenceEnd
    | .mappingStart p => go (a.set p.anchor place) (.mappingStart p.tag)
    | .mappingEnd => go a .mappingEnd

/-- A document with its aliases resolved, up to an alias of no anchor. -/
structure Source where
  nodes : List Node
  places : List (Nat × Nat)
  whole : Bool
  deriving Repr

def link (events : List Event) : Source :=
  let (nodes, a, whole) := linkGo Anchors.none 0 events
  ⟨nodes, a.places, whole⟩

abbrev Path := Option (List Char)

namespace Path

def text (p : Path) : List Char :=
  p.getD ['.']

def inner (p : Path) : List Char :=
  match p with
  | none => []
  | some t => t ++ ['.']

def item (p : Path) (i : Nat) : Path :=
  some (text p ++ ('[' :: Nat.toDigits 10 i) ++ [']'])

def entry (p : Path) (key : Option (List Char)) : Path :=
  some (inner p ++ key.getD ['?'])

end Path

def isNull (cs : List Char) : Bool :=
  cs.isEmpty || ["null".toList, "Null".toList, "NULL".toList, ['~']].contains cs

def bool? (cs : List Char) : Option Bool :=
  if ["true".toList, "True".toList, "TRUE".toList].contains cs then some true
  else if ["false".toList, "False".toList, "FALSE".toList].contains cs then some false
  else none

def wholeValue? (w : Number.Whole) : Option Value :=
  match w with
  | .number n => some (.number n)
  | .tooWide => none

def plainValue? (cs : List Char) : Option Value :=
  if isNull cs then some .null
  else match bool? cs, Number.whole? cs with
    | some b, _ => some (.bool b)
    | none, some w => wholeValue? w
    | none, none =>
      if Number.hasLeadingZero cs then some (.string cs)
      else match Number.real? cs with
        | some b => some (.number (.real b))
        | none => some (.string cs)

def coreTag (name : String) : List Char :=
  "tag:yaml.org,2002:".toList ++ name.toList

/-- A tag of the core schema asks for a kind of value. -/
def taggedValue? (tag text : List Char) : Option Value :=
  if tag = coreTag "bool" then (bool? text).map .bool
  else if tag = coreTag "int" then (Number.whole? text).bind wholeValue?
  else if tag = coreTag "float" then (Number.real? text).map (fun b => .number (.real b))
  else if tag = coreTag "null" then if isNull text && !text.isEmpty then some .null else none
  else some (.string text)

def ownTag? (tag : Option (List Char)) : Option (List Char) :=
  match tag with
  | some ['!'] => some ['!']
  | some ('!' :: rest) => some rest
  | _ => none

def scalarValue? (tag : Option (List Char)) (text : List Char) (style : ScalarStyle) :
    Option Value :=
  match tag, ownTag? tag with
  | some t, none => taggedValue? t text
  | _, _ => if style = .plain then plainValue? text else some (.string text)

def scalar (path : Path) (tag : Option (List Char)) (text : List Char) (style : ScalarStyle) :
    Except Fault Value :=
  match scalarValue? tag text style with
  | some v => .ok v
  | none => .error (.invalidValue (Path.text path))

/-- Aliases followed so far; a document may follow a hundred for each node. -/
def jumpLimit (s : Source) : Nat :=
  s.nodes.length * 100

def depthLimit : Nat := 128

structure Step (α : Type) where
  result : α
  jumps : Nat
  rest : List Node

def keyName? (n : Node) : Option (List Char) :=
  match n with
  | .scalar _ text _ => some text
  | _ => none

def underTag (tag : List Char) (s : Step Value) : Step Value :=
  ⟨.tagged tag s.result, s.jumps, s.rest⟩

mutual

/-- `bare` says that the tag of the node was already taken. -/
def node (s : Source) : Nat → Nat → Nat → Path → Bool → List Node → Except Fault (Step Value)
  | 0, _, _, _, _, _ => .error .malformed
  | _, _, _, _, _, [] => .error .malformed
  | fuel + 1, depth, jumps, path, bare, n::rest =>
    match n with
    | .alias number =>
      if jumpLimit s < jumps + 1 then .error .malformed
      else match s.places.lookup number with
        | none => .error .malformed
        | some place => do
          let r ← node s fuel depth (jumps + 1) (some (Path.text path)) false (s.nodes.drop place)
          .ok ⟨r.result, r.jumps, rest⟩
    | .scalar tag text style =>
      match ownTag? tag, bare with
      | some own, false => do
        let v ← scalar path tag text style
        .ok (underTag own ⟨v, jumps, rest⟩)
      | _, _ => do
        let v ← scalar path tag text style
        .ok ⟨v, jumps, rest⟩
    | .sequenceStart tag =>
      match ownTag? tag, bare with
      | some own, false => do
        let r ← node s fuel depth jumps path true (n::rest)
        .ok (underTag own r)
      | _, _ =>
        match depth with
        | 0 => .error .malformed
        | depth + 1 => do
          let r ← items s fuel depth jumps path 0 rest
          .ok ⟨.sequence r.result, r.jumps, r.rest⟩
    | .mappingStart tag =>
      match ownTag? tag, bare with
      | some own, false => do
        let r ← node s fuel depth jumps path true (n::rest)
        .ok (underTag own r)
      | _, _ =>
        match depth with
        | 0 => .error .malformed
        | depth + 1 => do
          let r ← entries s fuel depth jumps path [] rest
          .ok ⟨.mapping r.result, r.jumps, r.rest⟩
    | .sequenceEnd | .mappingEnd => .error .malformed

def items (s : Source) : Nat → Nat → Nat → Path → Nat → List Node → Except Fault (Step (List Value))
  | 0, _, _, _, _, _ => .error .malformed
  | _, _, _, _, _, [] => .error .malformed
  | fuel + 1, depth, jumps, path, i, n::rest =>
    if n = .sequenceEnd then .ok ⟨[], jumps, rest⟩
    else do
      let r ← node s fuel depth jumps (Path.item path i) false (n::rest)
      let rs ← items s fuel depth r.jumps path (i + 1) r.rest
      .ok ⟨r.result :: rs.result, rs.jumps, rs.rest⟩

/-- `before` holds the entries read so far, the last one first. -/
def entries (s : Source) : Nat → Nat → Nat → Path → List (Value × Value) → List Node →
    Except Fault (Step (List (Value × Value)))
  | 0, _, _, _, _, _ => .error .malformed
  | _, _, _, _, _, [] => .error .malformed
  | fuel + 1, depth, jumps, path, before, n::rest =>
    if n = .mappingEnd then .ok ⟨before.reverse, jumps, rest⟩
    else do
      let k ← node s fuel depth jumps path false (n::rest)
      if before.any (fun e => e.1.same k.result) then .error (.duplicateKey (Path.text path))
      else
        let v ← node s fuel depth k.jumps (Path.entry path (keyName? n)) false k.rest
        entries s fuel depth v.jumps path ((k.result, v.result) :: before) v.rest

end

def fuelFor (s : Source) : Nat :=
  (depthLimit + 2) * (2 * s.nodes.length + 6)

def ofEvents (stream : EventStream) : Except Fault Value :=
  match stream.events, stream.ending with
  | [], .last => .ok .null
  | events, ending => do
    let s := link events
    let r ← node s (fuelFor s) depthLimit 0 none false s.nodes
    if s.whole && ending = .last then .ok r.result else .error .malformed

end Decode

def decode (text : List Char) : Except Fault Value :=
  Decode.ofEvents (EventStream.ofTokens (TokenStream.ofText text))

end SlideDirectives.Yaml
