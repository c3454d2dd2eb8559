import SlideDirectives.Yaml.Decode

/-!
# The keys of a decoded mapping differ

An entry joins a mapping only if no entry before it has the same key. Keys that
are scalars are the same only if they are equal.
-/

set_option autoImplicit false

namespace SlideDirectives.Yaml

namespace Value

/-! Values are equal as trees, mappings with their entries in order. -/

mutual

def equal : Value → Value → Bool
  | .null, .null => true
  | .bool a, .bool b => a == b
  | .number a, .number b => a == b
  | .string a, .string b => a == b
  | .sequence xs, .sequence ys => equalItems xs ys
  | .mapping xs, .mapping ys => equalEntries xs ys
  | .tagged s a, .tagged t b => s == t && equal a b
  | _, _ => false

def equalItems : List Value → List Value → Bool
  | [], [] => true
  | x::xs, y::ys => equal x y && equalItems xs ys
  | _, _ => false

def equalEntries : List (Value × Value) → List (Value × Value) → Bool
  | [], [] => true
  | (k, v)::xs, (l, w)::ys => equal k l && equal v w && equalEntries xs ys
  | _, _ => false

end

mutual

theorem equal_iff (a b : Value) : equal a b = true ↔ a = b := by
  cases a with
  | null => cases b <;> simp [equal]
  | bool x => cases b <;> simp [equal]
  | number x => cases b <;> simp [equal]
  | string x => cases b <;> simp [equal]
  | sequence xs =>
    cases b with
    | sequence ys => rw [equal, equalItems_iff xs ys, Value.sequence.injEq]
    | _ => simp [equal]
  | mapping xs =>
    cases b with
    | mapping ys => rw [equal, equalEntries_iff xs ys, Value.mapping.injEq]
    | _ => simp [equal]
  | tagged s x =>
    cases b with
    | tagged t y => simp [equal, equal_iff x y]
    | _ => simp [equal]

theorem equalItems_iff (xs ys : List Value) : equalItems xs ys = true ↔ xs = ys := by
  cases xs with
  | nil => cases ys <;> simp [equalItems]
  | cons x xs =>
    cases ys with
    | nil => simp [equalItems]
    | cons y ys => simp [equalItems, equal_iff x y, equalItems_iff xs ys]

theorem equalEntries_iff (xs ys : List (Value × Value)) :
    equalEntries xs ys = true ↔ xs = ys := by
  cases xs with
  | nil => cases ys <;> simp [equalEntries]
  | cons x xs =>
    obtain ⟨k, v⟩ := x
    cases ys with
    | nil => simp [equalEntries]
    | cons y ys =>
      obtain ⟨l, w⟩ := y
      simp [equalEntries, equal_iff k l, equal_iff v w, equalEntries_iff xs ys]

end

instance : DecidableEq Value :=
  fun a b => decidable_of_iff (equal a b = true) (equal_iff a b)

def entries? : Value → Option (List (Value × Value))
  | .mapping es => some es
  | .tagged _ v => entries? v
  | _ => none

def isScalar : Value → Bool
  | .null => true
  | .bool _ => true
  | .number _ => true
  | .string _ => true
  | _ => false

theorem same_scalar {v w : Value} (hv : v.isScalar = true) (h : v.same w = true) : w = v := by
  cases v <;> cases w <;> simp_all [isScalar, same]

theorem same_self {v : Value} (hv : v.isScalar = true) : v.same v = true := by
  cases v <;> simp_all [isScalar, same]

def KeysDiffer (v : Value) : Prop :=
  ∀ es, v.entries? = some es → es.Pairwise (fun a b => a.1.same b.1 = false)

end Value

namespace Decode

open Value

theorem bind_eq_ok {α β : Type} {x : Except Fault α} {f : α → Except Fault β} {b : β}
    (h : x >>= f = .ok b) : ∃ a, x = .ok a ∧ f a = .ok b := by
  cases x with
  | error fault => cases h
  | ok a => exact ⟨a, rfl, h⟩

theorem entries_differ {s : Source} {fuel depth jumps : Nat} {path : Path}
    {before : List (Value × Value)} {nodes : List Node} {r : Step (List (Value × Value))}
    (hb : before.Pairwise (fun a b => b.1.same a.1 = false))
    (h : entries s fuel depth jumps path before nodes = .ok r) :
    r.result.Pairwise (fun a b => a.1.same b.1 = false) := by
  induction fuel generalizing jumps before nodes with
  | zero => simp [entries] at h
  | succ fuel ih =>
    cases nodes with
    | nil => simp [entries] at h
    | cons n rest =>
      rw [entries] at h
      split at h
      · obtain rfl := Except.ok.inj h
        exact List.pairwise_reverse.mpr hb
      · obtain ⟨k, -, h⟩ := bind_eq_ok h
        split at h
        · cases h
        · rename_i hnew
          obtain ⟨v, -, h⟩ := bind_eq_ok h
          apply ih _ h
          rw [List.pairwise_cons]
          refine ⟨?_, hb⟩
          intro e he
          simp only [List.any_eq_true, not_exists, not_and, Bool.not_eq_true] at hnew
          exact hnew e he

theorem wholeValue_entries? {w : Number.Whole} {v : Value} (h : wholeValue? w = some v) :
    v.entries? = none := by
  cases w with
  | number n =>
    obtain rfl := Option.some.inj h
    rfl
  | tooWide => cases h

theorem plainValue_entries? {text : List Char} {v : Value} (h : plainValue? text = some v) :
    v.entries? = none := by
  rw [plainValue?.eq_def] at h
  split at h
  · obtain rfl := Option.some.inj h
    rfl
  · split at h
    · obtain rfl := Option.some.inj h
      rfl
    · exact wholeValue_entries? h
    · split at h
      · obtain rfl := Option.some.inj h
        rfl
      · split at h
        · obtain rfl := Option.some.inj h
          rfl
        · obtain rfl := Option.some.inj h
          rfl

theorem taggedValue_entries? {tag text : List Char} {v : Value}
    (h : taggedValue? tag text = some v) : v.entries? = none := by
  rw [taggedValue?] at h
  split at h
  · obtain ⟨b, -, rfl⟩ := Option.map_eq_some_iff.mp h
    rfl
  · split at h
    · obtain ⟨w, -, h⟩ := Option.bind_eq_some_iff.mp h
      exact wholeValue_entries? h
    · split at h
      · obtain ⟨b, -, rfl⟩ := Option.map_eq_some_iff.mp h
        rfl
      · split at h
        · split at h
          · obtain rfl := Option.some.inj h
            rfl
          · cases h
        · obtain rfl := Option.some.inj h
          rfl

theorem scalar_entries? {path : Path} {tag : Option (List Char)} {text : List Char}
    {style : ScalarStyle} {v : Value} (h : scalar path tag text style = .ok v) :
    v.entries? = none := by
  rw [scalar] at h
  split at h
  · next w hw =>
    obtain rfl := Except.ok.inj h
    rw [scalarValue?.eq_def] at hw
    split at hw
    · exact taggedValue_entries? hw
    · split at hw
      · exact plainValue_entries? hw
      · obtain rfl := Option.some.inj hw
        rfl
  · cases h

theorem entries?_underTag (tag : List Char) (r : Step Value) :
    (underTag tag r).result.entries? = r.result.entries? := by
  rw [underTag, Value.entries?]

/-- The mapping that a node stands for has no key twice. -/
theorem node_keysDiffer {s : Source} {fuel depth jumps : Nat} {path : Path} {bare : Bool}
    {nodes : List Node} {r : Step Value} (h : node s fuel depth jumps path bare nodes = .ok r) :
    r.result.KeysDiffer := by
  induction fuel generalizing depth jumps path bare nodes r with
  | zero => simp [node] at h
  | succ fuel ih =>
    cases nodes with
    | nil => simp [node] at h
    | cons n rest =>
      cases n with
      | «alias» number =>
        rw [node.eq_def] at h
        dsimp only at h
        split at h
        · cases h
        · split at h
          · cases h
          · obtain ⟨r', hr, h⟩ := bind_eq_ok h
            obtain rfl := Except.ok.inj h
            exact ih (r := r') hr
      | scalar tag text style =>
        rw [node.eq_def] at h
        dsimp only at h
        have hnone : r.result.entries? = none := by
          split at h
          · obtain ⟨v, hv, h⟩ := bind_eq_ok h
            obtain rfl := Except.ok.inj h
            rw [entries?_underTag]
            exact scalar_entries? hv
          · obtain ⟨v, hv, h⟩ := bind_eq_ok h
            obtain rfl := Except.ok.inj h
            exact scalar_entries? hv
        intro es hes
        rw [hnone] at hes
        cases hes
      | sequenceStart tag =>
        rw [node.eq_def] at h
        dsimp only at h
        split at h
        · obtain ⟨r', hr, h⟩ := bind_eq_ok h
          obtain rfl := Except.ok.inj h
          rw [KeysDiffer, entries?_underTag]
          exact ih hr
        · split at h
          · cases h
          · obtain ⟨r', -, h⟩ := bind_eq_ok h
            obtain rfl := Except.ok.inj h
            intro es hes
            cases hes
      | mappingStart tag =>
        rw [node.eq_def] at h
        dsimp only at h
        split at h
        · obtain ⟨r', hr, h⟩ := bind_eq_ok h
          obtain rfl := Except.ok.inj h
          rw [KeysDiffer, entries?_underTag]
          exact ih hr
        · split at h
          · cases h
          · obtain ⟨r', hr, h⟩ := bind_eq_ok h
            obtain rfl := Except.ok.inj h
            intro es hes
            obtain rfl := Option.some.inj hes
            exact entries_differ List.Pairwise.nil hr
      | sequenceEnd => simp [node] at h
      | mappingEnd => simp [node] at h

/-- A text that repeats a key at its top does not decode. -/
theorem decode_keysDiffer {text : List Char} {v : Value} (h : decode text = .ok v) :
    v.KeysDiffer := by
  simp only [decode, ofEvents] at h
  split at h
  · obtain rfl := Except.ok.inj h
    intro es hes
    cases hes
  · obtain ⟨r, hr, h⟩ := bind_eq_ok h
    split at h
    · obtain rfl := Except.ok.inj h
      exact node_keysDiffer hr
    · cases h

end Decode

end SlideDirectives.Yaml
