import SlideDirectives.Proofs.Html.Decoy
import SlideDirectives.Proofs.Text.Utf8

/-!
# Looking for comments by bytes

The texts of comments can be looked for by byte offsets into the fragment, with
every cut of it checked and the texts compared byte by byte. No cut fails, each
round of the search leaves less to look at, and the comments are the same.
-/

set_option autoImplicit false

namespace SlideDirectives.Html.Comment

open Text

def returnByte : UInt8 := 13

theorem encode_return : String.utf8EncodeChar '\r' = [returnByte] := rfl

/-- Bytes of the beginning of `hay` that reads as the given bytes. Carriage
returns before any other byte are passed. -/
def matchBytes? : (text hay : List UInt8) → Option Nat
  | [], _ => some 0
  | b::text, hay =>
    let returns := if b = returnByte then 0 else (hay.takeWhile (· == returnByte)).length
    match hay.drop returns with
    | [] => none
    | c::hay => if c = b then (matchBytes? text hay).map (· + (returns + 1)) else none

section Matching

variable {b c : UInt8} {text hay : List UInt8}

theorem matchBytes?_nil : matchBytes? (b::text) [] = none := by
  simp [matchBytes?]

theorem matchBytes?_same :
    matchBytes? (b::text) (b::hay) = (matchBytes? text hay).map (· + 1) := by
  by_cases hb : b = returnByte <;> simp [matchBytes?, hb]

theorem matchBytes?_return (hb : b ≠ returnByte) :
    matchBytes? (b::text) (returnByte::hay) = (matchBytes? (b::text) hay).map (· + 1) := by
  simp only [matchBytes?, if_neg hb, List.takeWhile_cons, beq_self_eq_true, if_true,
    List.length_cons, List.drop_succ_cons]
  split
  · rfl
  · split
    · rw [Option.map_map]
      rfl
    · rfl

theorem matchBytes?_other (h : c ≠ b) (hc : c ≠ returnByte) :
    matchBytes? (b::text) (c::hay) = none := by
  simp [matchBytes?, hc, h]

theorem matchBytes?_append (xs : List UInt8) :
    matchBytes? (xs ++ text) (xs ++ hay) = (matchBytes? text hay).map (· + xs.length) := by
  induction xs with
  | nil => simp
  | cons x xs ih =>
    rw [List.cons_append, List.cons_append, matchBytes?_same, ih, Option.map_map]
    rfl

theorem matchBytes?_differ {xs ys : List UInt8} (hreturn : returnByte ∉ ys) (hx : ¬ xs <+: ys)
    (hy : ¬ ys <+: xs) : matchBytes? (xs ++ text) (ys ++ hay) = none := by
  induction xs generalizing ys with
  | nil => exact absurd List.nil_prefix hx
  | cons x xs ih =>
    cases ys with
    | nil => exact absurd List.nil_prefix hy
    | cons y ys =>
      rw [List.mem_cons, not_or] at hreturn
      by_cases h : y = x
      · subst h
        rw [List.cons_prefix_cons, not_and] at hx hy
        rw [List.cons_append, List.cons_append, matchBytes?_same, ih hreturn.2 (hx rfl) (hy rfl)]
        rfl
      · exact matchBytes?_other h (Ne.symm hreturn.1)

theorem matchBytes?_bytes (text cs : List Char) :
    matchBytes? (bytes text) (bytes cs) = matchSize? text cs := by
  fun_induction matchSize? text cs with
  | case1 => rfl
  | case2 t ts =>
    obtain ⟨lead, rest, ht, -, -⟩ := exists_encode t
    rw [bytes_cons, ht]
    exact matchBytes?_nil
  | case3 ts c cs ih =>
    rw [bytes_cons, bytes_cons, matchBytes?_append, ih, String.length_utf8EncodeChar]
  | case4 t ts cs hne ih =>
    obtain ⟨lead, rest, ht, -, -⟩ := exists_encode t
    have hlead : lead ≠ returnByte := fun h => hne ((lead_eq_iff ht encode_return).mp h)
    have hreturn : bytes ('\r' :: cs) = returnByte :: bytes cs := rfl
    rw [← ih, hreturn, bytes_cons, ht]
    exact matchBytes?_return hlead
  | case5 t ts c cs hne hreturn =>
    apply matchBytes?_differ (not_mem_encode encode_return hreturn)
    · exact fun h => hne (eq_of_encode_isPrefix h)
    · exact fun h => hne (eq_of_encode_isPrefix h).symm

end Matching

def firstOf? (part : List Char) : List Char → Option Nat
  | [] => if part.isEmpty then some 0 else none
  | c::cs =>
    if part.isPrefixOf (c::cs) then some 0 else (firstOf? part cs).map (· + c.utf8Size)

/-- The first comment with the given text from byte `search` on, or a span that
does not fit the fragment. What is left behind an opening is less. -/
def locateFrom (fragment text : List Char) (search : Nat) : Except Span (Option Comment) :=
  match cutFrom fragment search with
  | .error s => .error s
  | .ok rest =>
    match firstOf? commentOpening rest with
    | none => .ok none
    | some offset =>
      let contentStart := search + offset + 4
      match _hcut : cutFrom fragment contentStart with
      | .error s => .error s
      | .ok content =>
        match matchBytes? (bytes text) (bytes content) with
        | none => locateFrom fragment text contentStart
        | some size =>
          let contentStop := contentStart + size
          match cutFrom fragment contentStop with
          | .error s => .error s
          | .ok behind =>
            .ok (some ⟨⟨search + offset, contentStop + closingSize text.isEmpty behind⟩,
              ⟨contentStart, contentStop⟩⟩)
termination_by byteSize fragment - search
decreasing_by
  have hle := cutFrom_le _hcut
  omega

def locateAllFrom (fragment : List Char) :
    Nat → List (List Char) → Except Span (List Comment)
  | _, [] => .ok []
  | cursor, text::texts => do
    match ← locateFrom fragment text cursor with
    | none => locateAllFrom fragment cursor texts
    | some comment => return comment :: (← locateAllFrom fragment comment.span.stop texts)

section Searching

variable {text cs : List Char} {start : Nat}

theorem firstOf?_eq_none (h : firstOf? commentOpening cs = none) : locate? text start cs = none := by
  induction cs generalizing start with
  | nil => rfl
  | cons c cs ih =>
    rw [firstOf?] at h
    split at h
    · cases h
    · rename_i hopen
      rw [locate?, if_neg hopen]
      exact ih (Option.map_eq_none_iff.mp h)

theorem firstOf?_eq_some {n : Nat} (start : Nat) (h : firstOf? commentOpening cs = some n) :
    ∃ lead after, cs = lead ++ (commentOpening ++ after) ∧ n = byteSize lead ∧
      locate? text start cs = locate? text (start + n) (commentOpening ++ after) := by
  induction cs generalizing start n with
  | nil => cases h
  | cons c cs ih =>
    rw [firstOf?] at h
    split at h
    · rename_i hopen
      obtain ⟨after, hafter⟩ := List.isPrefixOf_iff_prefix.mp hopen
      obtain rfl := Option.some.inj h
      exact ⟨[], after, hafter.symm, rfl, by rw [hafter]; rfl⟩
    · rename_i hopen
      obtain ⟨m, hm, rfl⟩ := Option.map_eq_some_iff.mp h
      obtain ⟨lead, after, rfl, rfl, hlocate⟩ := ih (start + c.utf8Size) hm
      refine ⟨c::lead, after, rfl, Nat.add_comm _ _, ?_⟩
      rw [locate?, if_neg hopen, hlocate, Nat.add_assoc, Nat.add_comm c.utf8Size]

theorem locate?_pass {after : List Char} (h : matchSize? text after = none) :
    locate? text start (commentOpening ++ after) = locate? text (start + 4) after := by
  have hsize : start + '<'.utf8Size + '!'.utf8Size + '-'.utf8Size + '-'.utf8Size = start + 4 := rfl
  simp [commentOpening, locate?, List.isPrefixOf, h, hsize]

theorem locate?_match {content behind : List Char}
    (h : matchSize? text (content ++ behind) = some (byteSize content)) :
    (locate? text start (commentOpening ++ (content ++ behind))).map Prod.fst =
      some ⟨⟨start, start + 4 + byteSize content + closingSize text.isEmpty behind⟩,
        ⟨start + 4, start + 4 + byteSize content⟩⟩ := by
  simp [commentOpening, locate?, List.isPrefixOf, h, dropBytes_byteSize_append]

theorem locateFrom_eq (done cs text : List Char) :
    locateFrom (done ++ cs) text (byteSize done) =
      .ok ((locate? text (byteSize done) cs).map Prod.fst) := by
  -- What is behind an opening that does not match is searched in the same way.
  induction hn : cs.length using Nat.strongRecOn generalizing done cs with
  | ind n ih =>
    rw [locateFrom]
    simp only [cutFrom_append]
    cases hfirst : firstOf? commentOpening cs with
    | none =>
      rw [firstOf?_eq_none hfirst]
      rfl
    | some offset =>
      obtain ⟨lead, after, rfl, rfl, hlocate⟩ := firstOf?_eq_some (byteSize done) hfirst
      let opened := done ++ (lead ++ commentOpening)
      have hfragment : done ++ (lead ++ (commentOpening ++ after)) = opened ++ after := by
        simp [opened]
      have hopened : byteSize done + byteSize lead + 4 = byteSize opened := by
        simp only [opened, byteSize_append, byteSize_commentOpening, Nat.add_assoc]
      have hafter := cutFrom_append opened after
      rw [← hopened] at hafter
      rw [hlocate, hfragment]
      dsimp only
      split
      · rename_i hcut
        rw [hafter] at hcut
        cases hcut
      · rename_i content hcut
        obtain rfl := Except.ok.inj (hafter.symm.trans hcut)
        rw [matchBytes?_bytes, hopened]
        cases hmatch : matchSize? text after with
        | none =>
          have hless : after.length < n := by
            rw [← hn, List.length_append, List.length_append, commentOpening, List.length_cons]
            omega
          rw [locate?_pass hmatch, hopened]
          exact ih after.length hless opened after rfl
        | some size =>
          obtain ⟨part, ⟨behind, rfl⟩, rfl⟩ := matchSize?_isPrefix hmatch
          have hbehind := cutFrom_append (opened ++ part) behind
          rw [byteSize_append, List.append_assoc] at hbehind
          rw [locate?_match hmatch, hopened]
          simp only [hbehind]

theorem locateAllFrom_eq (texts : List (List Char)) (done cs : List Char) :
    locateAllFrom (done ++ cs) (byteSize done) texts =
      .ok (locateAll (byteSize done) cs texts) := by
  induction texts generalizing done cs with
  | nil => rfl
  | cons text texts ih =>
    have hfound := locate?_found done cs text
    rw [locateAllFrom, locateFrom_eq, locateAll]
    cases hlocate : locate? text (byteSize done) cs with
    | none => exact ih done cs
    | some found =>
      obtain ⟨comment, rest⟩ := found
      rw [hlocate] at hfound
      obtain ⟨p, size, -, -, -, -, read, hfragment, hread⟩ := hfound
      have hrest := ih read rest
      rw [← hfragment, hread] at hrest
      change (do return comment :: (← locateAllFrom (done ++ cs) comment.span.stop texts)) = _
      rw [hrest]
      rfl

end Searching

end SlideDirectives.Html.Comment
