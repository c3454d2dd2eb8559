import SlideDirectives.Yaml.Outline

/-!
# Entries that agree with the mapping

Where each entry of the scan has the key of the mapping's entry in its place, and
its lines decode to just that entry, a text is read alike on both ways: as a
whole, and entry by entry if a key is repeated.
-/

set_option autoImplicit false

namespace SlideDirectives.Yaml.Outline

open Text

variable {decode : Decoder} {source : List Char}

structure Agrees (decode : Decoder) (source : List Char) (e : Entry) (x : Value × Value) :
    Prop where
  key : isKey decode (slice source e.key) x.1 = true
  alone : decode (clean (slice source ⟨e.key.start, e.stop⟩)) = .ok (.mapping [x])

def pairOf (decode : Decoder) (source : List Char) (e : Entry) (x : Value × Value) : Pair :=
  ⟨⟨unquote decode (slice source e.key), e.key⟩,
    e.value.map (fun v => ⟨valueText (slice source v) x.2, v⟩)⟩

section Placed

variable {α : Type} {ps : List α} {entry : α → Entry} {found : α → Value × Value}

theorem locate_agrees (h : ∀ p ∈ ps, Agrees decode source (entry p) (found p)) :
    locate decode source (ps.map entry) (ps.map found) =
      ps.map (fun p => pairOf decode source (entry p) (found p)) := by
  induction ps with
  | nil => rfl
  | cons p ps ih =>
    have hkey := (h p List.mem_cons_self).key
    have hrest := ih fun p hp => h p (List.mem_cons_of_mem _ hp)
    simp only [List.map_cons, locate, takeKey, hkey, if_true, hrest, pairOf]

theorem locateEach?_agrees (h : ∀ p ∈ ps, Agrees decode source (entry p) (found p)) :
    locateEach? decode source (ps.map entry) =
      some (ps.map fun p => pairOf decode source (entry p) (found p)) := by
  induction ps with
  | nil => rfl
  | cons p ps ih =>
    have hp := h p List.mem_cons_self
    have hrest := ih fun p hp => h p (List.mem_cons_of_mem _ hp)
    have hone : locate decode source [entry p] [found p] =
        [pairOf decode source (entry p) (found p)] := by
      simp only [locate, takeKey, hp.key, if_true, pairOf]
    simp only [List.map_cons, locateEach?, hp.alone, hrest, Option.map_some, hone]
    rfl

/-- A text whose entries agree with its mapping is read as their pairs, whether
or not a key is repeated. -/
theorem read_agrees {repeated : Bool} (hblank : (trim (clean source)).isEmpty = false)
    (hsome : ps ≠ []) (hentries : entries source = ps.map entry)
    (hdecode : Yaml.decode (clean source) =
      if repeated then .error (.duplicateKey ['.']) else .ok (.mapping (ps.map found)))
    (h : ∀ p ∈ ps, Agrees Yaml.decode source (entry p) (found p)) :
    read source = .mapping (ps.map fun p => pairOf Yaml.decode source (entry p) (found p)) := by
  rw [read, readWith]
  simp only [hblank, Bool.false_eq_true, if_false, hdecode]
  cases repeated with
  | false =>
    simp only [Bool.false_eq_true, if_false, ofValue, hentries, locate_agrees h]
  | true =>
    have htop : Fault.isTopDuplicate (.duplicateKey ['.']) = true := rfl
    simp only [if_true, htop, hentries, locateEach?_agrees h]
    cases ps with
    | nil => exact absurd rfl hsome
    | cons p ps => rfl

end Placed

end SlideDirectives.Yaml.Outline
