import SlideDirectives.Proofs.Text.Boundary

/-!
# Texts as bytes

The UTF-8 form of a text is made of the forms of its characters, none of which
begins another. Only the first byte of a character can be that of an ASCII
character, so boundaries can be told from the bytes alone, and a cut that is
checked on the bytes fails for the spans that do not fit the text.
-/

set_option autoImplicit false

namespace SlideDirectives.Text

def bytes (cs : List Char) : List UInt8 :=
  cs.flatMap String.utf8EncodeChar

theorem bytes_cons (c : Char) (cs : List Char) :
    bytes (c::cs) = String.utf8EncodeChar c ++ bytes cs := rfl

theorem bytes_append (xs ys : List Char) : bytes (xs ++ ys) = bytes xs ++ bytes ys :=
  List.flatMap_append

theorem length_bytes (cs : List Char) : (bytes cs).length = byteSize cs := by
  induction cs with
  | nil => rfl
  | cons c cs ih => rw [bytes_cons, List.length_append, String.length_utf8EncodeChar, ih, byteSize]

section Characters

variable {c d : Char}

/-- A character is decoded from its form whatever follows, so no form begins another. -/
theorem eq_of_encode_append {xs ys : List UInt8}
    (h : String.utf8EncodeChar c ++ xs = String.utf8EncodeChar d ++ ys) : c = d := by
  have hbytes := congrArg (fun bs => ByteArray.utf8DecodeChar? (List.toByteArray bs) 0) h
  simp only [List.toByteArray_append, ByteArray.utf8DecodeChar?_utf8EncodeChar_append] at hbytes
  exact Option.some.inj hbytes

theorem eq_of_encode_isPrefix (h : String.utf8EncodeChar c <+: String.utf8EncodeChar d) : c = d := by
  obtain ⟨tail, htail⟩ := h
  exact eq_of_encode_append (htail.trans (List.append_nil _).symm)

theorem exists_encode (c : Char) : ∃ lead rest, String.utf8EncodeChar c = lead :: rest ∧
    lead.IsUTF8FirstByte ∧ ∀ b ∈ rest, ¬ b.IsUTF8FirstByte := by
  have hpos := c.utf8Size_pos
  cases hc : String.utf8EncodeChar c with
  | nil =>
    rw [← String.length_utf8EncodeChar, hc] at hpos
    cases hpos
  | cons lead rest =>
    have hfirst : ∀ i (hi : i < (lead :: rest).length),
        ((lead :: rest)[i]).IsUTF8FirstByte ↔ i = 0 := by
      intro i hi
      simp only [← hc]
      exact UInt8.isUTF8FirstByte_getElem_utf8EncodeChar
    refine ⟨lead, rest, rfl, (hfirst 0 (Nat.succ_pos _)).mpr rfl, ?_⟩
    intro b hb hstart
    obtain ⟨i, hi, rfl⟩ := List.mem_iff_getElem.mp hb
    exact Nat.succ_ne_zero i ((hfirst (i + 1) (Nat.succ_lt_succ hi)).mp hstart)

theorem lead_eq_iff {lead b : UInt8} {rest : List UInt8}
    (hc : String.utf8EncodeChar c = lead :: rest) (hd : String.utf8EncodeChar d = [b]) :
    lead = b ↔ c = d := by
  constructor
  · rintro rfl
    apply Eq.symm
    apply eq_of_encode_isPrefix
    rw [hc, hd]
    exact ⟨rest, rfl⟩
  · rintro rfl
    rw [hd] at hc
    exact (List.cons.inj hc).1.symm

theorem isFirst_of_encode {b : UInt8} (hd : String.utf8EncodeChar d = [b]) :
    b.IsUTF8FirstByte := by
  obtain ⟨lead, rest, hlead, hfirst, -⟩ := exists_encode d
  rwa [(List.cons.inj (hd.symm.trans hlead)).1]

theorem utf8Size_of_encode {b : UInt8} (hd : String.utf8EncodeChar d = [b]) : d.utf8Size = 1 := by
  rw [← String.length_utf8EncodeChar, hd]
  rfl

theorem not_mem_encode {b : UInt8} (hd : String.utf8EncodeChar d = [b]) (h : c ≠ d) :
    b ∉ String.utf8EncodeChar c := by
  obtain ⟨lead, rest, hc, -, hrest⟩ := exists_encode c
  rw [hc, List.mem_cons, not_or]
  exact ⟨fun hb => h ((lead_eq_iff hc hd).mp hb.symm),
    fun hb => hrest b hb (isFirst_of_encode hd)⟩

end Characters

section Boundaries

/-- No byte that continues a character stands at `n`. -/
def startsAt (bs : List UInt8) (n : Nat) : Prop :=
  match bs[n]? with
  | none => n = bs.length
  | some b => b.IsUTF8FirstByte

instance (bs : List UInt8) (n : Nat) : Decidable (startsAt bs n) := by
  unfold startsAt
  split <;> infer_instance

theorem startsAt_append (xs ys : List UInt8) (n : Nat) :
    startsAt (xs ++ ys) (xs.length + n) ↔ startsAt ys n := by
  have hget : (xs ++ ys)[xs.length + n]? = ys[n]? := by
    rw [List.getElem?_append_right (Nat.le_add_right _ _), Nat.add_sub_cancel_left]
  rw [startsAt, startsAt, hget]
  cases ys[n]? with
  | none => simp
  | some b => exact Iff.rfl

/-- Boundaries are told from the bytes. -/
theorem startsAt_bytes (cs : List Char) (n : Nat) :
    startsAt (bytes cs) n ↔ isBoundary cs n = true := by
  induction cs generalizing n with
  | nil =>
    change n = 0 ↔ (0 == n) = true
    rw [beq_iff_eq]
    exact eq_comm
  | cons c cs ih =>
    rw [bytes_cons]
    by_cases hn : c.utf8Size ≤ n
    · obtain ⟨m, rfl⟩ := Nat.exists_eq_add_of_le hn
      have hlength := String.length_utf8EncodeChar c
      have happend := startsAt_append (String.utf8EncodeChar c) (bytes cs) m
      rw [hlength] at happend
      rw [happend, ih]
      simp [isBoundary, takeBytes, byteSize]
    · have hi : n < (String.utf8EncodeChar c).length := by
        rw [String.length_utf8EncodeChar]
        omega
      have hnone : takeBytes n (c::cs) = [] := if_neg hn
      rw [startsAt, List.getElem?_append_left hi, List.getElem?_eq_getElem hi, isBoundary, hnone,
        beq_iff_eq]
      exact UInt8.isUTF8FirstByte_getElem_utf8EncodeChar.trans eq_comm

/-- The text under a span, where its ends are boundaries to the bytes, and else the span. -/
def cut (cs : List Char) (s : Span) : Except Span (List Char) :=
  if s.start ≤ s.stop ∧ startsAt (bytes cs) s.start ∧ startsAt (bytes cs) s.stop then
    .ok (slice cs s)
  else .error s

def cutFrom (cs : List Char) (n : Nat) : Except Span (List Char) :=
  cut cs ⟨n, byteSize cs⟩

variable {cs part : List Char} {s : Span}

theorem cut_fits (h : s.Fits cs) : cut cs s = .ok (slice cs s) := by
  rw [cut, if_pos]
  exact ⟨h.ordered, (startsAt_bytes _ _).mpr h.startBoundary,
    (startsAt_bytes _ _).mpr h.stopBoundary⟩

theorem cutFrom_le {n : Nat} (h : cutFrom cs n = .ok part) : n ≤ byteSize cs := by
  rw [cutFrom, cut] at h
  split at h
  · rename_i hfits
    exact hfits.1
  · cases h

theorem Holds.cut_eq (h : Holds cs s part) : cut cs s = .ok part := by
  rw [cut_fits h.fits, h.slice_eq]

theorem cutFrom_append (xs ys : List Char) : cutFrom (xs ++ ys) (byteSize xs) = .ok ys := by
  apply Holds.cut_eq
  exact ⟨xs, [], by simp, by rw [byteSize_append]⟩

theorem cut_append (xs ys : List Char) : cut (xs ++ ys) ⟨0, byteSize xs⟩ = .ok xs := by
  apply Holds.cut_eq
  exact ⟨[], ys, rfl, by simp [byteSize]⟩

end Boundaries

end SlideDirectives.Text
