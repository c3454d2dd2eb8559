import SlideDirectives.Proofs.Yaml.EntryBytes
import SlideDirectives.Proofs.Yaml.Page.Inline

/-!
# Where a quoted scalar closes

A quoted scalar is a quote, content that holds that quote only in an escaped
form, and the quote again. The search for its end goes over bytes, by one or by
two, so that an escape may lead into the middle of a character. It ends after as
many rounds as there are bytes or sooner, and finds the one place where a quoted
scalar closes, if there is one.
-/

set_option autoImplicit false

namespace SlideDirectives.Yaml

open Text

namespace Quoted

/-- What may stand between two quotes. -/
inductive Content : Quote → List Char → Prop where
  | nil (q : Quote) : Content q []
  | char {q : Quote} {c : Char} {cs : List Char} (hquote : c ≠ q.char)
      (hescape : ¬ (q = .double ∧ c = '\\')) (h : Content q cs) : Content q (c::cs)
  | doubled {cs : List Char} (h : Content .single cs) : Content .single ('\x27' :: '\x27' :: cs)
  | escaped {cs : List Char} (c : Char) (h : Content .double cs) : Content .double ('\\' :: c :: cs)

/-- The text starts with a quoted scalar of `n` bytes. A quote that is doubled
closes nothing. -/
def ClosesAt (text : List Char) (n : Nat) : Prop :=
  ∃ q content rest, text = Quote.char q :: (content ++ q.char :: rest) ∧ Content q content ∧
    ¬ Doubles q rest ∧ n = byteSize (q.char :: (content ++ [q.char]))

def Quote.escape : Quote → Char → List Char
  | .single, c => if c = '\x27' then ['\x27', '\x27'] else [c]
  | .double, c => if c = '\x22' ∨ c = '\\' then ['\\', c] else [c]

def Quote.write (q : Quote) (text : List Char) : List Char :=
  q.char :: (text.flatMap q.escape ++ [q.char])

theorem content_escape (q : Quote) (text : List Char) : Content q (text.flatMap q.escape) := by
  induction text with
  | nil => exact Content.nil q
  | cons c text ih =>
    rw [List.flatMap_cons]
    cases q with
    | single =>
      by_cases hc : c = '\x27'
      · rw [Quote.escape, if_pos hc]
        exact ih.doubled
      · rw [Quote.escape, if_neg hc]
        exact ih.char hc (by simp)
    | double =>
      by_cases hc : c = '\x22' ∨ c = '\\'
      · rw [Quote.escape, if_pos hc]
        exact ih.escaped c
      · rw [Quote.escape, if_neg hc]
        rw [not_or] at hc
        exact ih.char hc.1 (by simp [hc.2])

theorem ClosesAt.two_le {text : List Char} {n : Nat} (h : ClosesAt text n) : 2 ≤ n := by
  obtain ⟨q, content, rest, -, -, -, rfl⟩ := h
  have hq := q.char.utf8Size_pos
  simp only [byteSize, byteSize_append]
  omega

theorem ClosesAt.isBoundary {text : List Char} {n : Nat} (h : ClosesAt text n) :
    isBoundary text n = true := by
  obtain ⟨q, content, rest, rfl, -, -, rfl⟩ := h
  have htext : q.char :: (content ++ q.char :: rest) = (q.char :: (content ++ [q.char])) ++ rest := by
    simp
  rw [htext]
  exact isBoundary_byteSize _ rest

end Quoted

namespace Entry

open Quoted

section Characters

variable {q : Quote} {cs content rest r : List Char}

theorem isQuote_char (q : Quote) : isQuote q.char = true := by
  cases q <;> decide

theorem closeGo_single (cs : List Char) :
    closeGo '\x27' ('\x27' :: '\x27' :: cs) =
      (closeGo '\x27' cs).map (fun r => '\x27' :: '\x27' :: r) := by
  rw [closeGo, if_pos (by decide)]

theorem closeGo_escaped (c : Char) (cs : List Char) :
    closeGo '\x22' ('\\' :: c :: cs) = (closeGo '\x22' cs).map (fun r => '\\' :: c :: r) := by
  rw [closeGo, if_pos (Or.inl ⟨rfl, rfl⟩)]

theorem closeGo_content (h : Content q content) (hrest : ¬ Doubles q rest) :
    closeGo q.char (content ++ q.char :: rest) = some (content ++ [q.char]) := by
  induction h with
  | nil q => exact Page.closeGo_close hrest
  | char hquote hescape _ ih =>
    rw [List.cons_append, Page.closeGo_pass hquote hescape, ih hrest]
    rfl
  | doubled _ ih =>
    rw [List.cons_append, List.cons_append]
    exact (closeGo_single _).trans (congrArg _ (ih hrest))
  | escaped c _ ih =>
    rw [List.cons_append, List.cons_append]
    exact (closeGo_escaped c _).trans (congrArg _ (ih hrest))

theorem content_of_closeGo (h : closeGo q.char cs = some r) :
    ∃ content rest, cs = content ++ q.char :: rest ∧ r = content ++ [q.char] ∧
      Content q content ∧ ¬ Doubles q rest := by
  -- An escape takes two characters, so what is left is shorter by one or by two.
  induction hn : cs.length using Nat.strongRecOn generalizing cs r with
  | ind n ih =>
    cases cs with
    | nil => cases h
    | cons c cs =>
      have hless : cs.length < n := by rw [← hn]; exact Nat.lt_succ_self _
      by_cases hquote : c = q.char
      · subst hquote
        by_cases hdoubles : Doubles q cs
        · obtain ⟨rfl, hhead⟩ := hdoubles
          obtain ⟨cs, rfl⟩ := List.head?_eq_some_iff.mp hhead
          obtain ⟨r, hr, rfl⟩ := Option.map_eq_some_iff.mp ((closeGo_single cs).symm.trans h)
          obtain ⟨content, rest, rfl, rfl, hcontent, hrest⟩ :=
            ih cs.length (Nat.lt_of_succ_lt hless) hr rfl
          exact ⟨_, rest, rfl, rfl, hcontent.doubled, hrest⟩
        · rw [Page.closeGo_close hdoubles] at h
          obtain rfl := Option.some.inj h
          exact ⟨[], cs, rfl, rfl, Content.nil q, hdoubles⟩
      · by_cases hescape : q = .double ∧ c = '\\'
        · obtain ⟨rfl, rfl⟩ := hescape
          cases cs with
          | nil => cases h
          | cons d cs =>
            obtain ⟨r, hr, rfl⟩ := Option.map_eq_some_iff.mp ((closeGo_escaped d cs).symm.trans h)
            obtain ⟨content, rest, rfl, rfl, hcontent, hrest⟩ :=
              ih cs.length (Nat.lt_of_succ_lt hless) hr rfl
            exact ⟨_, rest, rfl, rfl, hcontent.escaped d, hrest⟩
        · rw [Page.closeGo_pass hquote hescape] at h
          obtain ⟨r, hr, rfl⟩ := Option.map_eq_some_iff.mp h
          obtain ⟨content, rest, rfl, rfl, hcontent, hrest⟩ := ih cs.length hless hr rfl
          exact ⟨c::content, rest, rfl, rfl, hcontent.char hquote hescape, hrest⟩

theorem closingQuote?_content (h : Content q content) (hrest : ¬ Doubles q rest) :
    closingQuote? (q.char :: (content ++ q.char :: rest)) =
      some (byteSize (q.char :: (content ++ [q.char]))) := by
  rw [closingQuote?, quoted?, closeGo_content h hrest]
  rfl

theorem closingQuote?_eq_some (q : Quote) (cs : List Char) {n : Nat} :
    closingQuote? (q.char :: cs) = some n ↔ ClosesAt (q.char :: cs) n := by
  constructor
  · intro h
    obtain ⟨r, hr, rfl⟩ := Option.map_eq_some_iff.mp h
    obtain ⟨r, hclose, rfl⟩ := Option.map_eq_some_iff.mp hr
    obtain ⟨content, rest, rfl, rfl, hcontent, hrest⟩ := content_of_closeGo hclose
    exact ⟨q, content, rest, rfl, hcontent, hrest, rfl⟩
  · rintro ⟨q', content, rest, htext, hcontent, hrest, rfl⟩
    rw [htext]
    exact closingQuote?_content hcontent hrest

end Characters

section Bytes

/-- The search for the quote `q` from byte `i` on, which comes to an end after
some rounds. -/
inductive Searches (q : UInt8) (bs : List UInt8) : Nat → Nat → Option Nat → Prop where
  | past {i : Nat} (hi : bs.length ≤ i) : Searches q bs 0 i none
  | hidden {rounds i : Nat} {b : UInt8} {found : Option Nat} (hb : bs[i]? = some b)
      (h : Hides q b bs[i + 1]?) (rest : Searches q bs rounds (i + 2) found) :
      Searches q bs (rounds + 1) i found
  | closed {i : Nat} {b : UInt8} (hb : bs[i]? = some b) (h : ¬ Hides q b bs[i + 1]?)
      (hq : b = q) : Searches q bs 1 i (some (i + 1))
  | passed {rounds i : Nat} {b : UInt8} {found : Option Nat} (hb : bs[i]? = some b)
      (h : ¬ Hides q b bs[i + 1]?) (hq : b ≠ q) (rest : Searches q bs rounds (i + 1) found) :
      Searches q bs (rounds + 1) i found

variable {q b : UInt8} {bs : List UInt8} {i : Nat}

def closesFrom? (q : UInt8) (bs : List UInt8) (i : Nat) : Option Nat :=
  (closeBytes? q (bs.drop i)).map (· + i)

theorem drop_of_byte (hb : bs[i]? = some b) : bs.drop i = b :: bs.drop (i + 1) := by
  obtain ⟨hi, rfl⟩ := List.getElem?_eq_some_iff.mp hb
  exact List.drop_eq_getElem_cons hi

theorem closesFrom?_past (hi : bs.length ≤ i) : closesFrom? q bs i = none := by
  rw [closesFrom?, List.drop_eq_nil_of_le hi, closeBytes?]
  rfl

theorem closesFrom?_hidden (hb : bs[i]? = some b) (h : Hides q b bs[i + 1]?) :
    closesFrom? q bs i = closesFrom? q bs (i + 2) := by
  have htail : (bs.drop (i + 1)).tail = bs.drop (i + 2) := List.tail_drop
  rw [closesFrom?, drop_of_byte hb, closeBytes?, List.head?_drop, if_pos h, htail, map_add_add,
    Nat.add_comm 2 i]
  rfl

theorem closesFrom?_closed (hb : bs[i]? = some b) (h : ¬ Hides q b bs[i + 1]?) (hq : b = q) :
    closesFrom? q bs i = some (i + 1) := by
  rw [closesFrom?, drop_of_byte hb, closeBytes?, List.head?_drop, if_neg h, if_pos hq,
    Option.map_some, Nat.add_comm]

theorem closesFrom?_passed (hb : bs[i]? = some b) (h : ¬ Hides q b bs[i + 1]?) (hq : b ≠ q) :
    closesFrom? q bs i = closesFrom? q bs (i + 1) := by
  rw [closesFrom?, drop_of_byte hb, closeBytes?, List.head?_drop, if_neg h, if_neg hq, map_add_add,
    Nat.add_comm 1 i]
  rfl

theorem Searches.found_eq {rounds : Nat} {found : Option Nat} (h : Searches q bs rounds i found) :
    found = closesFrom? q bs i := by
  induction h with
  | past hi => exact (closesFrom?_past hi).symm
  | hidden hb h _ ih => rw [ih, closesFrom?_hidden hb h]
  | closed hb h hq => exact (closesFrom?_closed hb h hq).symm
  | passed hb h hq _ ih => rw [ih, closesFrom?_passed hb h hq]

/-- Each round takes a byte at least, so every search ends. -/
theorem exists_searches (q : UInt8) (bs : List UInt8) (i : Nat) :
    ∃ rounds ≤ bs.length - i, Searches q bs rounds i (closesFrom? q bs i) := by
  induction hn : bs.length - i using Nat.strongRecOn generalizing i with
  | ind n ih =>
    subst hn
    cases hb : bs[i]? with
    | none =>
      have hi : bs.length ≤ i := List.getElem?_eq_none_iff.mp hb
      rw [closesFrom?_past hi]
      exact ⟨0, Nat.zero_le _, .past hi⟩
    | some b =>
      have hi : i < bs.length := (List.getElem?_eq_some_iff.mp hb).1
      by_cases h : Hides q b bs[i + 1]?
      · obtain ⟨rounds, hle, hrest⟩ := ih (bs.length - (i + 2)) (by omega) (i + 2) rfl
        rw [closesFrom?_hidden hb h]
        exact ⟨rounds + 1, by omega, .hidden hb h hrest⟩
      · by_cases hq : b = q
        · rw [closesFrom?_closed hb h hq]
          exact ⟨1, by omega, .closed hb h hq⟩
        · obtain ⟨rounds, hle, hrest⟩ := ih (bs.length - (i + 1)) (by omega) (i + 1) rfl
          rw [closesFrom?_passed hb h hq]
          exact ⟨rounds + 1, by omega, .passed hb h hq hrest⟩

end Bytes

def byteOf : Quote → UInt8
  | .single => apostropheByte
  | .double => quoteByte

theorem closesFrom?_bytes (q : Quote) (cs : List Char) :
    closesFrom? (byteOf q) (bytes (q.char :: cs)) 1 = closingQuote? (q.char :: cs) := by
  have hbytes : bytes (q.char :: cs) = byteOf q :: bytes cs := by
    cases q <;> rfl
  have hclosing : closingBytes? (bytes (q.char :: cs)) = closingQuote? (q.char :: cs) :=
    closingBytes?_bytes (isQuote_char q)
  rw [hbytes] at hclosing ⊢
  exact hclosing

/-- A text written as a quoted scalar is passed as a whole, whatever is behind
it. In any text that starts with a quote the search by bytes ends, and it finds
the one place where a quoted scalar closes, or nothing if there is none. -/
theorem closingQuote?_exact :
    (∀ (q : Quote) (text rest : List Char), ¬ Doubles q rest →
      closingQuote? (q.write text ++ rest) = some (byteSize (q.write text))) ∧
    ∀ (q : Quote) (cs : List Char), let text := q.char :: cs
      (∃ rounds ≤ byteSize text,
        Searches (byteOf q) (bytes text) rounds 1 (closingQuote? text)) ∧
      (∀ rounds found, Searches (byteOf q) (bytes text) rounds 1 found →
        found = closingQuote? text) ∧
      (∀ n, closingQuote? text = some n ↔ ClosesAt text n) ∧
      (closingQuote? text = none ↔ ∀ n, ¬ ClosesAt text n) ∧
      (∀ m n, ClosesAt text m → ClosesAt text n → m = n) ∧
      ∀ n, ClosesAt text n → 2 ≤ n ∧ isBoundary text n = true := by
  constructor
  · intro q text rest hrest
    have hwritten : q.write text ++ rest =
        q.char :: (text.flatMap q.escape ++ q.char :: rest) := by simp [Quote.write]
    rw [hwritten]
    exact closingQuote?_content (content_escape q text) hrest
  · intro q cs text
    have hfound : ∀ n, closingQuote? text = some n ↔ ClosesAt text n :=
      fun n => closingQuote?_eq_some q cs
    refine ⟨?_, ?_, hfound, ?_, ?_, fun n h => ⟨h.two_le, h.isBoundary⟩⟩
    · obtain ⟨rounds, hle, hsearch⟩ := exists_searches (byteOf q) (bytes text) 1
      rw [closesFrom?_bytes] at hsearch
      rw [length_bytes] at hle
      exact ⟨rounds, by omega, hsearch⟩
    · intro rounds found hsearch
      rw [hsearch.found_eq, closesFrom?_bytes]
    · rw [Option.eq_none_iff_forall_not_mem]
      exact forall_congr' fun n => not_congr (hfound n)
    · intro m n hm hn
      exact Option.some.inj (((hfound m).mpr hm).symm.trans ((hfound n).mpr hn))

/-- A quote, a backslash and a character of two bytes in either style. Behind the
backslash the search goes on in the middle of that character. -/
theorem closingQuote?_exact_escapes :
    ¬ Doubles .single " # é".toList ∧
      closingQuote? "'é''\\' # é".toList = some 7 ∧
      closingQuote? "\x22\\\\é\\\x22\x22'".toList = some 8 ∧
      ClosesAt "\x22\\é\x22\x22".toList 5 ∧
      ∃ rounds ≤ 6, Searches quoteByte (bytes "\x22\\é\x22\x22".toList) rounds 1 (some 5) := by
  have hrest : ¬ Doubles .single " # é".toList := by decide
  obtain ⟨hends, -, hfound, -⟩ := closingQuote?_exact.2 .double "\\é\x22\x22".toList
  have hclosing : closingQuote? (Quote.double.char :: "\\é\x22\x22".toList) = some 5 := by decide
  rw [hclosing] at hends
  exact ⟨hrest, closingQuote?_exact.1 .single "é'\\".toList " # é".toList hrest,
    closingQuote?_exact.1 .double "\\é\x22".toList "'".toList (by decide),
    (hfound 5).mp hclosing, hends⟩

end Entry

end SlideDirectives.Yaml
