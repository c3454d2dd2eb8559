import SlideDirectives.Proofs.Yaml.Page.Scan
import SlideDirectives.Yaml.Decode

/-!
# Mappings of scalars

A mapping of plain keys, each with a scalar or without a value, decodes to what
its scalars decode to, in their order, unless a key has the value of a key
before it.
-/

set_option autoImplicit false

namespace SlideDirectives.Yaml.Page

/-- A plain key and a scalar, if there is one, with what they decode to. Where
there is none a value decodes like an empty scalar. -/
structure Binding where
  key : List Char
  value : Option (List Char × ScalarStyle)
  found : Yaml.Value × Yaml.Value
  key_resolved : Decode.scalarValue? none key .plain = some found.1
  value_resolved : Decode.scalarValue? none (value.getD ([], .plain)).1
    (value.getD ([], .plain)).2 = some found.2

namespace Binding

def scalar (b : Binding) : List Char × ScalarStyle :=
  b.value.getD ([], .plain)

def valueTokens (b : Binding) : List Token :=
  b.value.toList.map (fun s => Token.scalar s.1 s.2)

def tokens (b : Binding) : List Token :=
  [.key, .scalar b.key .plain, .value] ++ b.valueTokens

def events (b : Binding) : List Event :=
  [.scalar Properties.none b.key .plain, .scalar Properties.none b.scalar.1 b.scalar.2]

def nodes (b : Binding) : List Decode.Node :=
  [.scalar none b.key .plain, .scalar none b.scalar.1 b.scalar.2]

end Binding

def mappingTokens (opened : Bool) : List Binding → List Token
  | [] => closeTokens opened
  | b::bs => openTokens opened ++ (b.tokens ++ mappingTokens true bs)

def repeatsKey : List (Yaml.Value × Yaml.Value) → List (Yaml.Value × Yaml.Value) → Bool
  | _, [] => false
  | before, e::es => before.any (fun x => x.1.same e.1) || repeatsKey (e::before) es

section Events

open Event

/-- The reader goes on to give exactly these events, if it may take more than
`n` steps. -/
def Reads (r : Reader) (n : Nat) (events : List Event) (ending : Ending) : Prop :=
  ∀ fuel before, n < fuel → EventStream.readGo fuel before r = ⟨before.reverse ++ events, ending⟩

variable {r next : Reader} {e : Event} {es : List Event} {ending : Ending} {n : Nat}

theorem Reads.step (hexpected : r.expected.isEmpty = false) (hnext : r.next? = some (e, next))
    (h : Reads next n es ending) : Reads r (n + 1) (e::es) ending := by
  intro fuel before hfuel
  cases fuel with
  | zero => cases hfuel
  | succ fuel =>
    rw [EventStream.readGo, hexpected]
    simp only [Bool.false_eq_true, if_false, hnext]
    rw [h fuel (e::before) (by omega), List.reverse_cons, List.append_assoc]
    rfl

variable {handles : List (List Char × List Char)}

theorem reads_end : Reads ⟨[.streamEnd], [], handles⟩ 0 [] .last := by
  intro fuel before hfuel
  cases fuel with
  | zero => cases hfuel
  | succ fuel =>
    rw [List.append_nil]
    rfl

theorem next?_key (text : List Char) (ts : List Token) :
    Reader.next? ⟨.key :: .scalar text .plain :: ts, [.blockKey], handles⟩ =
      some (.scalar Properties.none text .plain, ⟨ts, [.blockValue], handles⟩) := rfl

theorem next?_value (b : Binding) {ts : List Token} (hts : ts.head?.any Reader.isBlockStop = true) :
    Reader.next? ⟨.value :: (b.valueTokens ++ ts), [.blockValue], handles⟩ =
      some (.scalar Properties.none b.scalar.1 b.scalar.2, ⟨ts, [.blockKey], handles⟩) := by
  cases hvalue : b.value with
  | none =>
    obtain ⟨t, ts, rfl⟩ : ∃ t ts', ts = t::ts' := by
      cases ts with
      | nil => cases hts
      | cons t ts => exact ⟨t, ts, rfl⟩
    have hstop : Reader.isBlockStop t = true := hts
    simp only [Binding.valueTokens, Binding.scalar, hvalue, Reader.next?, Option.toList_none,
      List.map_nil, List.nil_append, Reader.nodeUnless?, hstop, if_true, Reader.give]
    rfl
  | some s =>
    simp only [Binding.valueTokens, Binding.scalar, hvalue]
    rfl

theorem reads_before (bs : List Binding) {ts : List Token}
    (hts : ts.head?.any Reader.isBlockStop = true)
    (h : Reads ⟨ts, [.blockKey], handles⟩ n es ending) :
    Reads ⟨bs.flatMap Binding.tokens ++ ts, [.blockKey], handles⟩ (n + 2 * bs.length)
      (bs.flatMap Binding.events ++ es) ending := by
  induction bs with
  | nil => exact h
  | cons b bs ih =>
    have hstop : (bs.flatMap Binding.tokens ++ ts).head?.any Reader.isBlockStop = true := by
      cases bs with
      | nil => exact hts
      | cons b bs => rfl
    rw [List.flatMap_cons, List.append_assoc, List.flatMap_cons, List.append_assoc]
    exact Reads.step rfl (next?_key b.key _) (Reads.step rfl (next?_value b hstop) ih)

theorem mappingTokens_opened (bs : List Binding) :
    mappingTokens true bs = bs.flatMap Binding.tokens ++ [.blockEnd, .streamEnd] := by
  induction bs with
  | nil => rfl
  | cons b bs ih =>
    rw [mappingTokens, ih, List.flatMap_cons, List.append_assoc]
    rfl

theorem reads_bindings (bs : List Binding) :
    Reads ⟨mappingTokens true bs, [.blockKey], handles⟩ (1 + 2 * bs.length)
      (bs.flatMap Binding.events ++ [.mappingEnd]) .last := by
  rw [mappingTokens_opened]
  exact reads_before bs rfl (Reads.step rfl rfl reads_end)

theorem length_mappingTokens (bs : List Binding) : bs.length < (mappingTokens true bs).length := by
  induction bs with
  | nil => exact Nat.succ_pos 1
  | cons b bs ih =>
    simp only [mappingTokens, Binding.tokens, List.length_append, List.length_cons]
    omega

theorem ofTokens_mapping {bs : List Binding} (h : bs ≠ []) :
    EventStream.ofTokens ⟨mappingTokens false bs, false⟩ =
      ⟨.mappingStart Properties.none :: (bs.flatMap Binding.events ++ [.mappingEnd]), .last⟩ := by
  have hstart : mappingTokens false bs = .blockMappingStart :: mappingTokens true bs := by
    cases bs with
    | nil => exact absurd rfl h
    | cons b bs => rfl
  have hlength := length_mappingTokens bs
  rw [hstart]
  change EventStream.content [] (.blockMappingStart :: mappingTokens true bs) = _
  apply Reads.step (r := ⟨_, [.node true false], _⟩) rfl rfl (reads_bindings bs) _ []
  rw [List.length_cons]
  omega

theorem ofTokens_scalar (text : List Char) (style : ScalarStyle) :
    EventStream.ofTokens ⟨[.scalar text style, .streamEnd], false⟩ =
      ⟨[.scalar Properties.none text style], .last⟩ := rfl

end Events

section Nodes

open Decode

theorem linkGo_before (a : Anchors) (place : Nat) (bs : List Binding) (es : List Event) :
    linkGo a place (bs.flatMap Binding.events ++ es) =
      (bs.flatMap Binding.nodes ++ (linkGo a (place + 2 * bs.length) es).1,
        (linkGo a (place + 2 * bs.length) es).2) := by
  induction bs generalizing place with
  | nil => rfl
  | cons b bs ih =>
    have hplace : place + 1 + 1 + 2 * bs.length = place + 2 * (b::bs).length := by
      rw [List.length_cons]
      omega
    rw [List.flatMap_cons, List.flatMap_cons]
    simp only [Binding.events, Binding.nodes, List.cons_append, List.nil_append, linkGo,
      Properties.none, Anchors.set, ih, hplace]

theorem link_bindings (bs : List Binding) :
    link (.mappingStart Properties.none :: (bs.flatMap Binding.events ++ [.mappingEnd])) =
      ⟨.mappingStart none :: (bs.flatMap Binding.nodes ++ [.mappingEnd]), [], true⟩ := by
  simp only [link, linkGo, linkGo_before, Properties.none, Anchors.set, Anchors.none]

variable {s : Source} {fuel depth jumps : Nat}

theorem node_scalar {text : List Char} {style : ScalarStyle} {value : Yaml.Value}
    (h : scalarValue? none text style = some value) (path : Path) (rest : List Node) :
    node s (fuel + 1) depth jumps path false (.scalar none text style :: rest) =
      .ok ⟨value, jumps, rest⟩ := by
  unfold node
  simp only [ownTag?, Decode.scalar, h]
  rfl

/-- The mapping is built up to the first key that is repeated. -/
theorem entries_before {bs : List Binding} (before : List (Yaml.Value × Yaml.Value)) (fuel : Nat)
    (rest : List Node) :
    Decode.entries s (bs.length + (fuel + 1)) depth jumps none before
        (bs.flatMap Binding.nodes ++ rest) =
      if repeatsKey before (bs.map Binding.found) then .error (.duplicateKey ['.'])
      else Decode.entries s (fuel + 1) depth jumps none ((bs.map Binding.found).reverse ++ before)
        rest := by
  induction bs generalizing before with
  | nil => simp [repeatsKey]
  | cons b bs ih =>
    have hfuel : (b::bs).length + (fuel + 1) = bs.length + fuel + 1 + 1 := by
      rw [List.length_cons]
      omega
    have hrest := ih (b.found :: before)
    have hkey : ∀ path rest, node s (bs.length + fuel + 1) depth jumps path false
        (.scalar none b.key .plain :: rest) = .ok ⟨b.found.1, jumps, rest⟩ :=
      node_scalar b.key_resolved
    have hvalue : ∀ path rest, node s (bs.length + fuel + 1) depth jumps path false
        (.scalar none b.scalar.1 b.scalar.2 :: rest) = .ok ⟨b.found.2, jumps, rest⟩ :=
      node_scalar b.value_resolved
    rw [List.flatMap_cons, Binding.nodes, List.map_cons, hfuel]
    conv => lhs; unfold Decode.entries
    simp only [List.cons_append, List.nil_append, reduceCtorEq, if_false, hkey, bind,
      Except.bind, hvalue]
    by_cases hrepeats : before.any (fun e => e.1.same b.found.1) = true
    · rw [if_pos hrepeats, repeatsKey, hrepeats]
      rfl
    · rw [if_neg hrepeats, repeatsKey, eq_false_of_ne_true hrepeats, Bool.false_or,
        List.reverse_cons, List.append_assoc, List.singleton_append]
      exact hrest

theorem entries_bindings {bs : List Binding} (before : List (Yaml.Value × Yaml.Value))
    (h : bs.length < fuel) :
    Decode.entries s fuel depth jumps none before (bs.flatMap Binding.nodes ++ [.mappingEnd]) =
      if repeatsKey before (bs.map Binding.found) then .error (.duplicateKey ['.'])
      else .ok ⟨before.reverse ++ bs.map Binding.found, jumps, []⟩ := by
  obtain ⟨left, rfl⟩ := Nat.exists_eq_add_of_lt h
  rw [Nat.add_assoc, entries_before]
  unfold Decode.entries
  simp

theorem length_nodes (bs : List Binding) : (bs.flatMap Binding.nodes).length = 2 * bs.length := by
  induction bs with
  | nil => rfl
  | cons b bs ih =>
    rw [List.flatMap_cons, List.length_append, ih, Binding.nodes, List.length_cons]
    simp only [List.length_cons, List.length_nil]
    omega

end Nodes

/-- A mapping of scalars decodes to its entries, or fails with the fault of a
repeated key at the top. -/
theorem decode_mapping {bs : List Binding} (h : bs ≠ []) {text : List Char}
    (htokens : TokenStream.ofText text = ⟨mappingTokens false bs, false⟩) :
    decode text = if repeatsKey [] (bs.map Binding.found) then .error (.duplicateKey ['.'])
      else .ok (.mapping (bs.map Binding.found)) := by
  rw [decode, htokens, ofTokens_mapping h]
  simp only [Decode.ofEvents, link_bindings]
  obtain ⟨fuel, hfuel, hlength⟩ : ∃ fuel, Decode.fuelFor
      ⟨.mappingStart none :: (bs.flatMap Binding.nodes ++ [.mappingEnd]), [], true⟩ = fuel + 1 ∧
        bs.length < fuel := by
    refine ⟨_, Nat.succ_pred_eq_of_pos ?_ |>.symm, ?_⟩
    all_goals
      simp only [Decode.fuelFor, Decode.depthLimit, List.length_cons, List.length_append,
        length_nodes, Nat.pred_eq_sub_one]
      omega
  rw [hfuel, Decode.depthLimit]
  unfold Decode.node
  simp only [Decode.ownTag?, entries_bindings [] hlength]
  cases repeatsKey [] (bs.map Binding.found) with
  | true => rfl
  | false => rfl

theorem decode_scalar {text t : List Char} {style : ScalarStyle} {value : Yaml.Value}
    (hvalue : Decode.scalarValue? none t style = some value)
    (htokens : TokenStream.ofText text = ⟨[.scalar t style, .streamEnd], false⟩) :
    decode text = .ok value := by
  rw [decode, htokens, ofTokens_scalar]
  have hnode := @node_scalar (Decode.link [.scalar Properties.none t style]) 1039
    Decode.depthLimit 0 t style value hvalue none []
  change (do
    let r ← Decode.node _ 1040 Decode.depthLimit 0 none false [.scalar none t style]
    if true && Ending.last = Ending.last then Except.ok r.result else Except.error Fault.malformed) = _
  rw [hnode]
  rfl

section Refused

variable {key value : List Char} {style : ScalarStyle} {bs bs' : List Binding}
  {found : Yaml.Value}

theorem length_tokens (bs : List Binding) : bs.length ≤ (bs.flatMap Binding.tokens).length := by
  induction bs with
  | nil => exact Nat.le_refl 0
  | cons b bs ih =>
    simp only [List.flatMap_cons, Binding.tokens, List.length_append, List.length_cons]
    omega

def tokensAround (bs : List Binding) (key value : List Char) (style : ScalarStyle)
    (bs' : List Binding) : List Token :=
  .blockMappingStart :: (bs.flatMap Binding.tokens ++
    (.key :: .scalar key .plain :: .value :: .scalar value style :: mappingTokens true bs'))

theorem ofTokens_around :
    EventStream.ofTokens ⟨tokensAround bs key value style bs', false⟩ =
      ⟨.mappingStart Properties.none :: (bs.flatMap Binding.events ++
        (.scalar Properties.none key .plain :: .scalar Properties.none value style ::
          (bs'.flatMap Binding.events ++ [.mappingEnd]))), .last⟩ := by
  have hlength := length_tokens bs
  have hlength' := length_mappingTokens bs'
  change EventStream.content [] (tokensAround bs key value style bs') = _
  apply Reads.step (r := ⟨_, [.node true false], _⟩) rfl rfl (reads_before bs rfl
    (Reads.step rfl (next?_key key _) (Reads.step rfl rfl (reads_bindings bs')))) _ []
  simp only [tokensAround, List.length_cons, List.length_append]
  omega

theorem link_around :
    Decode.link (.mappingStart Properties.none :: (bs.flatMap Binding.events ++
      (.scalar Properties.none key .plain :: .scalar Properties.none value style ::
        (bs'.flatMap Binding.events ++ [.mappingEnd])))) =
      ⟨.mappingStart none :: (bs.flatMap Binding.nodes ++ (.scalar none key .plain ::
        .scalar none value style :: (bs'.flatMap Binding.nodes ++ [.mappingEnd]))), [], true⟩ := by
  simp only [Decode.link, Decode.linkGo, linkGo_before, Properties.none, Decode.Anchors.set,
    Decode.Anchors.none]

theorem node_refused {s : Decode.Source} {fuel depth jumps : Nat}
    (h : Decode.scalarValue? none value style = none) (path : Decode.Path)
    (rest : List Decode.Node) :
    Decode.node s (fuel + 1) depth jumps path false (.scalar none value style :: rest) =
      .error (.invalidValue (Decode.Path.text path)) := by
  unfold Decode.node
  simp only [Decode.ownTag?, Decode.scalar, h]
  rfl

/-- The first fault counts, and a repeated key is found before its value. -/
theorem entries_refused {s : Decode.Source} {fuel depth jumps : Nat}
    (hkey : Decode.scalarValue? none key .plain = some found)
    (hvalue : Decode.scalarValue? none value style = none)
    (before : List (Yaml.Value × Yaml.Value)) (rest : List Decode.Node) :
    Decode.entries s (fuel + 1 + 1) depth jumps none before
        (.scalar none key .plain :: .scalar none value style :: rest) =
      .error (if before.any (fun e => e.1.same found) then .duplicateKey ['.']
        else .invalidValue key) := by
  unfold Decode.entries
  simp only [reduceCtorEq, if_false, node_scalar hkey, node_refused hvalue, bind, Except.bind]
  by_cases hrepeats : before.any (fun e => e.1.same found) = true
  · rw [if_pos hrepeats, if_pos hrepeats]
    rfl
  · rw [if_neg hrepeats, if_neg hrepeats]
    rfl

/-- A mapping with a scalar that spells no value is refused, if not for a repeated
key before it. -/
theorem decode_around (hkey : Decode.scalarValue? none key .plain = some found)
    (hvalue : Decode.scalarValue? none value style = none) {text : List Char}
    (htokens : TokenStream.ofText text = ⟨tokensAround bs key value style bs', false⟩) :
    decode text = .error (if repeatsKey [] (bs.map Binding.found) ||
      (bs.map Binding.found).any (fun e => e.1.same found) then .duplicateKey ['.']
        else .invalidValue key) := by
  rw [decode, htokens, ofTokens_around]
  simp only [Decode.ofEvents, link_around]
  have hle : bs.length + 3 ≤ Decode.fuelFor
      ⟨.mappingStart none :: (bs.flatMap Binding.nodes ++ (.scalar none key .plain ::
        .scalar none value style :: (bs'.flatMap Binding.nodes ++ [.mappingEnd]))), [], true⟩ := by
    simp only [Decode.fuelFor, Decode.depthLimit, List.length_cons, List.length_append, length_nodes]
    omega
  obtain ⟨fuel, hfuel⟩ := Nat.exists_eq_add_of_le hle
  have hsplit : bs.length + 3 + fuel = bs.length + (fuel + 1 + 1) + 1 := by omega
  rw [hsplit] at hfuel
  rw [hfuel, Decode.depthLimit]
  unfold Decode.node
  simp only [Decode.ownTag?, entries_before, entries_refused hkey hvalue, List.append_nil,
    List.any_reverse]
  cases repeatsKey [] (bs.map Binding.found) with
  | true => rfl
  | false => rfl

end Refused

end SlideDirectives.Yaml.Page
