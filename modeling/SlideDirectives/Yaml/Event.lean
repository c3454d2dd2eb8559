import SlideDirectives.Yaml.Token.Scanner

/-!
# Events of the first document

A document is a sequence of events: scalars, aliases, and the starts and ends
of collections. Only the first document of a stream is read; what matters
about the rest is whether there is any.
-/

set_option autoImplicit false

namespace SlideDirectives.Yaml

structure Properties where
  anchor : Option (List Char)
  tag : Option (List Char)
  deriving DecidableEq, Repr

def Properties.none : Properties := ⟨Option.none, Option.none⟩

inductive Event where
  | alias (name : List Char)
  | scalar (properties : Properties) (text : List Char) (style : ScalarStyle)
  | sequenceStart (properties : Properties)
  | sequenceEnd
  | mappingStart (properties : Properties)
  | mappingEnd
  deriving DecidableEq, Repr

def Event.empty : Event := .scalar Properties.none [] .plain

namespace Event

inductive Expect where
  | node (block indentless : Bool)
  | blockEntry
  | indentlessEntry
  | blockKey
  | blockValue
  | flowEntry (first : Bool)
  | flowPairKey
  | flowPairValue
  | flowPairEnd
  | flowKey (first : Bool)
  | flowValue
  | flowEmptyValue
  deriving DecidableEq, Repr

structure Reader where
  tokens : List Token
  expected : List Expect
  handles : List (List Char × List Char)
  deriving Repr

namespace Reader

def give (e : Event) (r : Reader) (tokens : List Token) (expected : List Expect) :
    Option (Event × Reader) :=
  some (e, { r with tokens := tokens, expected := expected })

/-- A tag in full. An undeclared handle is refused. -/
def resolveTag? (r : Reader) (handle suffix : List Char) : Option (List Char) :=
  if handle.isEmpty then some suffix
  else (r.handles.lookup handle).map (· ++ suffix)

def properties? (r : Reader) : List Token → Option (Properties × List Token)
  | .anchor a :: .tag h s :: rest => do
    let tag ← r.resolveTag? h s
    some (⟨some a, some tag⟩, rest)
  | .tag h s :: .anchor a :: rest => do
    let tag ← r.resolveTag? h s
    some (⟨some a, some tag⟩, rest)
  | .anchor a :: rest => some (⟨some a, none⟩, rest)
  | .tag h s :: rest => do
    let tag ← r.resolveTag? h s
    some (⟨none, some tag⟩, rest)
  | rest => some (Properties.none, rest)

def node? (block indentless : Bool) (outer : List Expect) (r : Reader) : Option (Event × Reader) :=
  match r.tokens with
  | .alias name :: rest => give (.alias name) r rest outer
  | tokens => do
    let (p, tokens) ← r.properties? tokens
    match tokens with
    | [] => none
    | .blockEntry :: _ =>
      if indentless then give (.sequenceStart p) r tokens (.indentlessEntry :: outer)
      else if p ≠ Properties.none then give (.scalar p [] .plain) r tokens outer
      else none
    | .scalar text style :: rest => give (.scalar p text style) r rest outer
    | .flowSequenceStart :: rest => give (.sequenceStart p) r rest (.flowEntry true :: outer)
    | .flowMappingStart :: rest => give (.mappingStart p) r rest (.flowKey true :: outer)
    | .blockSequenceStart :: rest =>
      if block then give (.sequenceStart p) r rest (.blockEntry :: outer)
      else if p ≠ Properties.none then give (.scalar p [] .plain) r tokens outer
      else none
    | .blockMappingStart :: rest =>
      if block then give (.mappingStart p) r rest (.blockKey :: outer)
      else if p ≠ Properties.none then give (.scalar p [] .plain) r tokens outer
      else none
    | _ => if p ≠ Properties.none then give (.scalar p [] .plain) r tokens outer else none

def isBlockStop (t : Token) : Bool :=
  t == .key || t == .value || t == .blockEnd

def nodeUnless? (stops : Token → Bool) (block indentless : Bool) (outer : List Expect) (r : Reader) :
    Option (Event × Reader) :=
  match r.tokens with
  | [] => none
  | t::_ => if stops t then give Event.empty r r.tokens outer else node? block indentless outer r

def next? (r : Reader) : Option (Event × Reader) :=
  match r.expected with
  | [] => none
  | .node block indentless :: outer => node? block indentless outer r
  | .blockEntry :: outer =>
    match r.tokens with
    | .blockEntry :: rest =>
      nodeUnless? (fun t => t == .blockEntry || t == .blockEnd) true false (.blockEntry :: outer)
        { r with tokens := rest }
    | .blockEnd :: rest => give .sequenceEnd r rest outer
    | _ => none
  | .indentlessEntry :: outer =>
    match r.tokens with
    | .blockEntry :: rest =>
      nodeUnless? (fun t => t == .blockEntry || isBlockStop t) true false (.indentlessEntry :: outer)
        { r with tokens := rest }
    | [] => none
    | tokens => give .sequenceEnd r tokens outer
  | .blockKey :: outer =>
    match r.tokens with
    | .key :: rest => nodeUnless? isBlockStop true true (.blockValue :: outer) { r with tokens := rest }
    | .blockEnd :: rest => give .mappingEnd r rest outer
    | _ => none
  | .blockValue :: outer =>
    match r.tokens with
    | .value :: rest => nodeUnless? isBlockStop true true (.blockKey :: outer) { r with tokens := rest }
    | [] => none
    | tokens => give Event.empty r tokens (.blockKey :: outer)
  | .flowEntry first :: outer =>
    let entry (tokens : List Token) : Option (Event × Reader) :=
      match tokens with
      | [] => none
      | .flowSequenceEnd :: rest => give .sequenceEnd r rest outer
      | .key :: rest =>
        give (.mappingStart Properties.none) r rest (.flowPairKey :: .flowEntry false :: outer)
      | tokens => node? false false (.flowEntry false :: outer) { r with tokens := tokens }
    match first, r.tokens with
    | false, .flowEntry :: rest => entry rest
    | false, .flowSequenceEnd :: rest => give .sequenceEnd r rest outer
    | false, _ => none
    | true, tokens => entry tokens
  | .flowPairKey :: outer =>
    match r.tokens with
    | [] => none
    | t::rest =>
      if t == .value || t == .flowEntry || t == .flowSequenceEnd then
        give Event.empty r rest (.flowPairValue :: outer)
      else node? false false (.flowPairValue :: outer) r
  | .flowPairValue :: outer =>
    match r.tokens with
    | .value :: rest =>
      nodeUnless? (fun t => t == .flowEntry || t == .flowSequenceEnd) false false
        (.flowPairEnd :: outer) { r with tokens := rest }
    | [] => none
    | tokens => give Event.empty r tokens (.flowPairEnd :: outer)
  | .flowPairEnd :: outer =>
    match r.tokens with
    | [] => none
    | tokens => give .mappingEnd r tokens outer
  | .flowKey first :: outer =>
    let entry (tokens : List Token) : Option (Event × Reader) :=
      match tokens with
      | [] => none
      | .flowMappingEnd :: rest => give .mappingEnd r rest outer
      | .key :: rest =>
        nodeUnless? (fun t => t == .value || t == .flowEntry || t == .flowMappingEnd) false false
          (.flowValue :: outer) { r with tokens := rest }
      | tokens => node? false false (.flowEmptyValue :: outer) { r with tokens := tokens }
    match first, r.tokens with
    | false, .flowEntry :: rest => entry rest
    | false, .flowMappingEnd :: rest => give .mappingEnd r rest outer
    | false, _ => none
    | true, tokens => entry tokens
  | .flowValue :: outer =>
    match r.tokens with
    | .value :: rest =>
      nodeUnless? (fun t => t == .flowEntry || t == .flowMappingEnd) false false
        (.flowKey false :: outer) { r with tokens := rest }
    | [] => none
    | tokens => give Event.empty r tokens (.flowKey false :: outer)
  | .flowEmptyValue :: outer =>
    match r.tokens with
    | [] => none
    | tokens => give Event.empty r tokens (.flowKey false :: outer)

end Reader

end Event

/-- How the reading of a first document ended. -/
inductive Ending where
  | last
  | followed
  | faulty
  deriving DecidableEq, Repr

/-- The events of a first document up to its end or a fault. No events and the
ending `last` mean that there is no document. -/
structure EventStream where
  events : List Event
  ending : Ending
  deriving DecidableEq, Repr

namespace EventStream

open Event

def defaultHandles : List (List Char × List Char) :=
  [(['!'], ['!']), (['!', '!'], "tag:yaml.org,2002:".toList)]

/-- Versions 1.1 and 1.2 are read; a version or a handle is declared once. -/
def directives? : Bool → List (List Char × List Char) → List Token →
    Option (List (List Char × List Char) × List Token)
  | seen, handles, .versionDirective major minor :: rest =>
    if seen || major ≠ 1 || (minor ≠ 1 && minor ≠ 2) then none
    else directives? true handles rest
  | seen, handles, .tagDirective handle expansion :: rest =>
    if (handles.lookup handle).isSome then none
    else directives? seen (handles ++ [(handle, expansion)]) rest
  | _, handles, tokens => some (handles, tokens)

def isDocumentEdge (t : Token) : Bool :=
  match t with
  | .versionDirective _ _ | .tagDirective _ _ | .documentStart | .documentEnd | .streamEnd => true
  | _ => false

def endingAt (tokens : List Token) : Ending :=
  match tokens.dropWhile (· == .documentEnd) with
  | [] => .faulty
  | [.streamEnd] => .last
  | _ => .followed

def readGo : Nat → List Event → Reader → EventStream
  | 0, events, _ => ⟨events.reverse, .faulty⟩
  | fuel + 1, events, r =>
    if r.expected.isEmpty then
      match r.tokens with
      | [] => ⟨events.reverse, .faulty⟩
      | tokens => ⟨events.reverse, endingAt tokens⟩
    else match r.next? with
      | none => ⟨events.reverse, .faulty⟩
      | some (e, r) => readGo fuel (e::events) r

def content (handles : List (List Char × List Char)) (tokens : List Token) : EventStream :=
  readGo (4 * tokens.length + 4) [] ⟨tokens, [.node true false], handles ++ defaultHandles⟩

def explicit (tokens : List Token) : EventStream :=
  match directives? false [] tokens with
  | some (handles, .documentStart :: rest) =>
    match rest with
    | [] => ⟨[], .faulty⟩
    | t::_ => if isDocumentEdge t then ⟨[Event.empty], endingAt rest⟩ else content handles rest
  | _ => ⟨[], .faulty⟩

def ofTokens (s : TokenStream) : EventStream :=
  match s.tokens with
  | [] => ⟨[], .faulty⟩
  | [.streamEnd] => ⟨[], .last⟩
  | .versionDirective a b :: rest => explicit (.versionDirective a b :: rest)
  | .tagDirective h e :: rest => explicit (.tagDirective h e :: rest)
  | .documentStart :: rest => explicit (.documentStart :: rest)
  | tokens => content [] tokens

end EventStream

end SlideDirectives.Yaml
