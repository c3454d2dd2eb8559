import SlideDirectives.Proofs.Text.Utf8
import SlideDirectives.Proofs.Yaml.EntryPlace

/-!
# Entry lines by bytes

The parts of an entry line can be found by offsets: quotes, colons and comments
among the bytes, with an escape passed as two bytes, and everything between them
by checked cuts. No cut of a line fails, and the entry is the same.
-/

set_option autoImplicit false

namespace SlideDirectives.Yaml.Entry

open Text

def quoteByte : UInt8 := 34

def apostropheByte : UInt8 := 39

def backslashByte : UInt8 := 92

def colonByte : UInt8 := 58

def hashByte : UInt8 := 35

def isGapByte (b : UInt8) : Bool :=
  b == 32 || b == 9

/-- Whether a byte hides the one behind it in a scalar between quotes `q`. -/
def Hides (q b : UInt8) (next : Option UInt8) : Prop :=
  (b = backslashByte ∧ q = quoteByte) ∨
    (b = apostropheByte ∧ q = apostropheByte ∧ next = some apostropheByte)

instance (q b : UInt8) (next : Option UInt8) : Decidable (Hides q b next) :=
  inferInstanceAs (Decidable (_ ∨ _))

def closeBytes? (q : UInt8) : List UInt8 → Option Nat
  | [] => none
  | b::bs =>
    if Hides q b bs.head? then (closeBytes? q bs.tail).map (· + 2)
    else if b = q then some 1
    else (closeBytes? q bs).map (· + 1)
termination_by bs => bs.length
decreasing_by
  · simp only [List.length_tail, List.length_cons]
    omega
  · exact Nat.lt_succ_self _

def closingBytes? : List UInt8 → Option Nat
  | [] => none
  | q::bs => (closeBytes? q bs).map (· + 1)

def plainBytes? : List UInt8 → Option Nat
  | [] => none
  | b::bs =>
    if b = colonByte ∧ bs.head?.all isGapByte then some 0 else (plainBytes? bs).map (· + 1)

def commentBytes : Bool → List UInt8 → Nat
  | _, [] => 0
  | afterGap, b::bs => if afterGap && b == hashByte then 0 else commentBytes (isGapByte b) bs + 1

section Bytes

variable {c q : Char} {lead b : UInt8} {rest xs ys : List UInt8}

/-- What a text starts with is seen in its first byte. -/
theorem head?_bytes_eq_iff {d : Char} (hd : String.utf8EncodeChar d = [b]) (cs : List Char) :
    (bytes cs).head? = some b ↔ cs.head? = some d := by
  cases cs with
  | nil => simp [bytes]
  | cons c cs =>
    obtain ⟨lead, rest, hc, -, -⟩ := exists_encode c
    rw [bytes_cons, hc, List.cons_append, List.head?_cons, List.head?_cons, Option.some.injEq,
      Option.some.injEq, lead_eq_iff hc hd]

theorem isGapByte_lead (hc : String.utf8EncodeChar c = lead :: rest) :
    isGapByte lead = isGap c := by
  have hspace : lead = 32 ↔ c = ' ' := lead_eq_iff hc rfl
  have htab : lead = 9 ↔ c = '\t' := lead_eq_iff hc rfl
  rw [isGapByte, isGap, Bool.eq_iff_iff]
  simp only [Bool.or_eq_true, beq_iff_eq, hspace, htab]

theorem head?_bytes_all (cs : List Char) :
    (bytes cs).head?.all isGapByte = cs.head?.all isGap := by
  cases cs with
  | nil => rfl
  | cons c cs =>
    obtain ⟨lead, rest, hc, -, -⟩ := exists_encode c
    rw [bytes_cons, hc]
    exact isGapByte_lead hc

def HidesNext (q c : Char) (next : Option Char) : Prop :=
  (c = '\\' ∧ q = '\x22') ∨ (c = '\x27' ∧ q = '\x27' ∧ next = some '\x27')

theorem hides_bytes (hc : String.utf8EncodeChar c = lead :: rest)
    (hq : String.utf8EncodeChar q = [b]) (cs : List Char) :
    Hides b lead (rest ++ bytes cs).head? ↔ HidesNext q c cs.head? := by
  have hbackslash : lead = backslashByte ↔ c = '\\' := lead_eq_iff hc rfl
  have hapostrophe : lead = apostropheByte ↔ c = '\x27' := lead_eq_iff hc rfl
  have hdouble : b = quoteByte ↔ q = '\x22' := lead_eq_iff hq rfl
  have hsingle : b = apostropheByte ↔ q = '\x27' := lead_eq_iff hq rfl
  have hnext : c = '\x27' →
      ((rest ++ bytes cs).head? = some apostropheByte ↔ cs.head? = some '\x27') := by
    rintro rfl
    rw [← (List.cons.inj hc).2]
    exact head?_bytes_eq_iff rfl cs
  rw [Hides, HidesNext, hbackslash, hapostrophe, hdouble, hsingle]
  exact or_congr_right (and_congr_right fun h => and_congr_right fun _ => hnext h)

theorem map_add_add (m n : Nat) (size : Option Nat) :
    (size.map (· + m)).map (· + n) = size.map (· + (m + n)) := by
  rw [Option.map_map]
  simp only [Function.comp_def, Nat.add_assoc]

theorem map_byteSize_cons (c : Char) (r : Option (List Char)) :
    (r.map (c :: ·)).map byteSize = (r.map byteSize).map (· + c.utf8Size) := by
  rw [Option.map_map, Option.map_map]
  simp only [Function.comp_def, byteSize, Nat.add_comm]

theorem closeBytes?_skip (hb : b.IsUTF8FirstByte) (hxs : ∀ x ∈ xs, ¬ x.IsUTF8FirstByte) :
    closeBytes? b (xs ++ ys) = (closeBytes? b ys).map (· + xs.length) := by
  induction xs with
  | nil => simp
  | cons x xs ih =>
    rw [List.forall_mem_cons] at hxs
    have hhides : ¬ Hides b x (xs ++ ys).head? := by
      rintro (⟨rfl, -⟩ | ⟨rfl, -⟩)
      · exact hxs.1 (by decide)
      · exact hxs.1 (by decide)
    have hquote : x ≠ b := by
      rintro rfl
      exact hxs.1 hb
    rw [List.cons_append, closeBytes?, if_neg hhides, if_neg hquote, ih hxs.2, map_add_add,
      List.length_cons]

section Closing

variable {d : Char} {cs : List Char} (hq : String.utf8EncodeChar q = [b])

include hq

theorem closeBytes?_close (h : ¬ HidesNext q q cs.head?) :
    closeBytes? b (bytes (q::cs)) = some 1 := by
  have hhides : ¬ Hides b b (bytes cs).head? := fun k => h ((hides_bytes hq hq cs).mp k)
  rw [bytes_cons, hq, List.singleton_append, closeBytes?, if_neg hhides, if_pos rfl]

theorem closeBytes?_pass (h : ¬ HidesNext q c cs.head?) (hc : c ≠ q) :
    closeBytes? b (bytes (c::cs)) = (closeBytes? b (bytes cs)).map (· + c.utf8Size) := by
  obtain ⟨lead, rest, hlead, -, hrest⟩ := exists_encode c
  have hhides : ¬ Hides b lead (rest ++ bytes cs).head? := fun k => h ((hides_bytes hlead hq cs).mp k)
  have hquote : lead ≠ b := fun k => hc ((lead_eq_iff hlead hq).mp k)
  rw [← String.length_utf8EncodeChar, bytes_cons, hlead, List.cons_append, closeBytes?,
    if_neg hhides, if_neg hquote, closeBytes?_skip (isFirst_of_encode hq) hrest, map_add_add,
    List.length_cons]

theorem closeBytes?_hide (h : HidesNext q c (some d)) :
    closeBytes? b (bytes (c::d::cs)) =
      (closeBytes? b (bytes cs)).map (· + (c.utf8Size + d.utf8Size)) := by
  obtain ⟨lead, rest, hlead, -, hrest⟩ := exists_encode d
  have hone : ∃ first, String.utf8EncodeChar c = [first] := by
    rcases h with ⟨rfl, -⟩ | ⟨rfl, -⟩
    · exact ⟨_, rfl⟩
    · exact ⟨_, rfl⟩
  obtain ⟨first, hfirst⟩ := hone
  have hhides : Hides b first (bytes (d::cs)).head? := (hides_bytes hfirst hq (d::cs)).mpr h
  have hsize : rest.length + 2 = c.utf8Size + d.utf8Size := by
    rw [utf8Size_of_encode hfirst, ← String.length_utf8EncodeChar d, hlead, List.length_cons]
    omega
  rw [bytes_cons, hfirst, List.singleton_append, closeBytes?, if_pos hhides, bytes_cons, hlead,
    List.cons_append, List.tail_cons, closeBytes?_skip (isFirst_of_encode hq) hrest, map_add_add,
    hsize]

/-- A scalar is closed at the same byte, escape for escape. -/
theorem closeBytes?_bytes (cs : List Char) :
    closeBytes? b (bytes cs) = (closeGo q cs).map byteSize := by
  have hone : (some [q]).map byteSize = some 1 := by
    rw [Option.map_some, byteSize, utf8Size_of_encode hq]
    rfl
  have hnil : closeBytes? b (bytes []) = none := by rw [bytes, List.flatMap_nil, closeBytes?]
  -- A quote cannot be a backslash, so it hides nothing at the end of the text.
  fun_induction closeGo q cs with
  | case1 => exact hnil
  | case2 =>
    rw [hone]
    apply closeBytes?_close hq
    rintro (⟨rfl, h⟩ | ⟨-, -, h⟩)
    · exact absurd h (by decide)
    · cases h
  | case3 c hc =>
    by_cases hhides : HidesNext q c none
    · rcases hhides with ⟨rfl, rfl⟩ | ⟨-, -, h⟩
      · have hescape : Hides b backslashByte none :=
          (hides_bytes rfl hq []).mpr (Or.inl ⟨rfl, rfl⟩)
        change closeBytes? b [backslashByte] = none
        rw [closeBytes?, List.head?_nil, if_pos hescape, List.tail_nil, closeBytes?]
        rfl
      · cases h
    · rw [closeBytes?_pass hq hhides hc, hnil]
      rfl
  | case4 c d cs hhides ih =>
    have hmap : (closeGo q cs).map (fun r => c::d::r) =
        ((closeGo q cs).map (d :: ·)).map (c :: ·) := by
      rw [Option.map_map]
      rfl
    rw [closeBytes?_hide hq (by simpa [HidesNext] using hhides), ih, hmap, map_byteSize_cons,
      map_byteSize_cons, map_add_add, Nat.add_comm]
  | case5 d cs hhides =>
    rw [hone]
    exact closeBytes?_close hq (by simpa [HidesNext] using hhides)
  | case6 c d cs hhides hc ih =>
    rw [closeBytes?_pass hq (by simpa [HidesNext] using hhides) hc, ih, map_byteSize_cons]

end Closing

theorem closingBytes?_bytes {c : Char} {cs : List Char} (hc : isQuote c = true) :
    closingBytes? (bytes (c::cs)) = closingQuote? (c::cs) := by
  have hone : ∃ b, String.utf8EncodeChar c = [b] := by
    rw [isQuote, Bool.or_eq_true, beq_iff_eq, beq_iff_eq] at hc
    rcases hc with rfl | rfl
    · exact ⟨_, rfl⟩
    · exact ⟨_, rfl⟩
  obtain ⟨b, hb⟩ := hone
  rw [bytes_cons, hb, closingQuote?, quoted?, List.singleton_append, closingBytes?,
    closeBytes?_bytes hb, map_byteSize_cons, utf8Size_of_encode hb]

theorem plainBytes?_skip (hxs : ∀ x ∈ xs, ¬ x.IsUTF8FirstByte) :
    plainBytes? (xs ++ ys) = (plainBytes? ys).map (· + xs.length) := by
  induction xs with
  | nil => simp
  | cons x xs ih =>
    rw [List.forall_mem_cons] at hxs
    have hcolon : ¬ (x = colonByte ∧ (xs ++ ys).head?.all isGapByte) := by
      rintro ⟨rfl, -⟩
      exact hxs.1 (by decide)
    rw [List.cons_append, plainBytes?, if_neg hcolon, ih hxs.2, map_add_add, List.length_cons]

theorem plainBytes?_bytes (cs : List Char) :
    plainBytes? (bytes cs) = (plainKey? cs).map byteSize := by
  induction cs with
  | nil => rfl
  | cons c cs ih =>
    obtain ⟨lead, rest, hc, -, hrest⟩ := exists_encode c
    have hcolon : (lead = colonByte ∧ (rest ++ bytes cs).head?.all isGapByte = true) ↔
        (c = ':' ∧ cs.head?.all isGap = true) := by
      have hlead : lead = colonByte ↔ c = ':' := lead_eq_iff hc rfl
      rw [hlead]
      refine and_congr_right ?_
      rintro rfl
      rw [← (List.cons.inj hc).2, List.nil_append, head?_bytes_all]
    rw [plainKey?, bytes_cons, hc, List.cons_append, plainBytes?]
    by_cases h : c = ':' ∧ cs.head?.all isGap = true
    · rw [if_pos h, if_pos (hcolon.mpr h)]
      rfl
    · have hsize := String.length_utf8EncodeChar c
      rw [hc, List.length_cons] at hsize
      rw [if_neg h, if_neg (mt hcolon.mp h), plainBytes?_skip hrest, ih, map_add_add,
        map_byteSize_cons, hsize]

theorem commentBytes_skip (hxs : ∀ x ∈ xs, ¬ x.IsUTF8FirstByte) :
    commentBytes false (xs ++ ys) = xs.length + commentBytes false ys := by
  induction xs with
  | nil => simp
  | cons x xs ih =>
    rw [List.forall_mem_cons] at hxs
    have hgap : isGapByte x = false := by
      rw [isGapByte, Bool.or_eq_false_iff, beq_eq_false_iff_ne, beq_eq_false_iff_ne]
      constructor
      · rintro rfl
        exact hxs.1 (by decide)
      · rintro rfl
        exact hxs.1 (by decide)
    rw [List.cons_append, commentBytes, Bool.false_and, if_neg Bool.false_ne_true, hgap, ih hxs.2,
      List.length_cons]
    omega

theorem commentBytes_bytes (afterGap : Bool) (cs : List Char) :
    commentBytes afterGap (bytes cs) = byteSize (beforeComment afterGap cs) := by
  induction cs generalizing afterGap with
  | nil => rfl
  | cons c cs ih =>
    obtain ⟨lead, rest, hc, -, hrest⟩ := exists_encode c
    have hhash : (lead == hashByte) = (c == '#') := by
      rw [Bool.eq_iff_iff, beq_iff_eq, beq_iff_eq]
      exact lead_eq_iff hc rfl
    rw [beforeComment, bytes_cons, hc, List.cons_append, commentBytes, hhash, isGapByte_lead hc]
    split
    · rfl
    · have hsize := String.length_utf8EncodeChar c
      rw [hc, List.length_cons] at hsize
      have hbehind : commentBytes (isGap c) (rest ++ bytes cs) =
          rest.length + byteSize (beforeComment (isGap c) cs) := by
        cases hgap : isGap c with
        | false => rw [commentBytes_skip hrest, ih]
        | true =>
          have hrest : rest = [] := by
            rw [isGap, Bool.or_eq_true, beq_iff_eq, beq_iff_eq] at hgap
            rcases hgap with rfl | rfl
            · exact (List.cons.inj hc).2.symm
            · exact (List.cons.inj hc).2.symm
          rw [hrest, List.nil_append, ih, List.length_nil, Nat.zero_add]
      rw [hbehind, byteSize, ← hsize]
      omega

end Bytes

end SlideDirectives.Yaml.Entry
