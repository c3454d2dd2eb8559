import SlideDirectives.Proofs.Html.TokenPlace

/-!
# Comments that are found in their own places

Comments are looked for by their texts, so a comment opening in raw text, in
an attribute or in an earlier comment can be taken for one. The comments that
are found are those that were read if and only if their places trace the texts
of the tokens. Where no opening stands in the way, they do; and where every
token is opened, they do nowhere else.
-/

set_option autoImplicit false

namespace SlideDirectives.Html

open Text

namespace Comment

/-- The comments at which texts are found from byte `p` on: each text at the
first opening behind the one before, or nowhere. -/
inductive Traces (fragment : List Char) : Nat → List (List Char) → List Comment → Prop where
  | done (p : Nat) : Traces fragment p [] []
  | lost {p : Nat} {text : List Char} {texts : List (List Char)} {cs : List Comment}
      (nowhere : ∀ stop, NoneIn fragment p stop text) (behind : Traces fragment p texts cs) :
      Traces fragment p (text::texts) cs
  | found {p q size : Nat} {text : List Char} {texts : List (List Char)} {cs : List Comment}
      (le : p ≤ q) (opens : Opens fragment q text size) (first : NoneIn fragment p q text)
      (behind : Traces fragment (placed fragment q text size).span.stop texts cs) :
      Traces fragment p (text::texts) (placed fragment q text size :: cs)

theorem locateAll_traces (texts : List (List Char)) (done cs : List Char) :
    Traces (done ++ cs) (byteSize done) texts (locateAll (byteSize done) cs texts) := by
  induction texts generalizing done cs with
  | nil => exact Traces.done _
  | cons text texts ih =>
    have hfound := locate?_found done cs text
    rw [locateAll]
    cases hl : locate? text (byteSize done) cs with
    | none =>
      rw [hl] at hfound
      exact Traces.lost hfound (ih done cs)
    | some found =>
      obtain ⟨comment, rest⟩ := found
      rw [hl] at hfound
      obtain ⟨p, size, hp, ho, hnone, rfl, read, he, hread⟩ := hfound
      have hbehind := ih read rest
      rw [← he, hread] at hbehind
      exact Traces.found hp ho hnone hbehind

theorem Opens.size_eq {fragment text : List Char} {p m n : Nat} (h : Opens fragment p text m)
    (k : Opens fragment p text n) : m = n := by
  obtain ⟨before, after, rfl, rfl, hm⟩ := h
  obtain ⟨after', he, hn⟩ := opens_iff.mp k
  rw [← List.append_cancel_left he, hm] at hn
  exact Option.some.inj hn

theorem Traces.unique {fragment : List Char} {p : Nat} {texts : List (List Char)}
    {cs ds : List Comment} (h : Traces fragment p texts cs) (k : Traces fragment p texts ds) :
    cs = ds := by
  induction h generalizing ds with
  | done p =>
    cases k
    rfl
  | lost nowhere _ ih =>
    cases k with
    | lost _ behind => exact ih behind
    | found le opens _ _ => exact absurd opens (nowhere _ _ _ le (Nat.lt_succ_self _))
  | @found p q size text texts cs le opens first _ ih =>
    cases k with
    | lost nowhere _ => exact absurd opens (nowhere _ _ _ le (Nat.lt_succ_self _))
    | @found _ q' size' _ _ ds le' opens' first' behind' =>
      have hq : q = q' := by
        rcases Nat.lt_trichotomy q q' with hlt | heq | hgt
        · exact absurd opens (first' q size le hlt)
        · exact heq
        · exact absurd opens' (first q' size' le' hgt)
      subst hq
      obtain rfl := opens.size_eq opens'
      rw [ih behind']

theorem Traces.length_le {fragment : List Char} {p : Nat} {texts : List (List Char)}
    {cs : List Comment} (h : Traces fragment p texts cs) : cs.length ≤ texts.length := by
  induction h with
  | done p => exact Nat.le_refl _
  | lost _ _ ih => exact Nat.le_succ_of_le ih
  | found _ _ _ _ ih => exact Nat.succ_le_succ ih

theorem contains_of_part (before part after : List Char) :
    contains part (before ++ (part ++ after)) = true := by
  induction before with
  | nil =>
    cases part with
    | nil => cases after <;> simp [contains]
    | cons c part => simp [contains]
  | cons c before ih => rw [List.cons_append, contains, ih, Bool.or_true]

theorem traces_nil {fragment : List Char} (h : contains commentOpening fragment = false)
    (p : Nat) (texts : List (List Char)) : Traces fragment p texts [] := by
  induction texts with
  | nil => exact Traces.done p
  | cons text texts ih =>
    refine Traces.lost ?_ ih
    intro stop q size _ _ ho
    obtain ⟨before, after, rfl, -, -⟩ := ho
    rw [contains_of_part] at h
    cases h

theorem matchSize?_append (text cs : List Char) :
    matchSize? text (text ++ cs) = some (byteSize text) := by
  induction text with
  | nil => simp [matchSize?, byteSize]
  | cons c text ih => simp [matchSize?, ih, byteSize, Nat.add_comm]

end Comment

namespace CommentToken

def place (t : CommentToken) : Comment :=
  ⟨t.span, t.content⟩

def places (ts : List CommentToken) : List Comment :=
  (ts.filter (·.opened)).map place

theorem places_cons {t : CommentToken} {ts : List CommentToken} :
    places (t::ts) = if t.opened then t.place :: places ts else places ts := by
  by_cases ho : t.opened = true
  · rw [if_pos ho, places, List.filter_cons_of_pos ho]
    rfl
  · rw [if_neg ho, places, List.filter_cons_of_neg ho]
    rfl

/-- From byte `p` on no opening stands in the way of a token: none reads as an
opened one before its own place, and none at all as another one. -/
def Clear (fragment : List Char) : Nat → List CommentToken → Prop
  | _, [] => True
  | p, t::ts =>
    if t.opened then
      Comment.NoneIn fragment p t.span.start t.text ∧ Clear fragment t.span.stop ts
    else (∀ stop, Comment.NoneIn fragment p stop t.text) ∧ Clear fragment p ts

variable {fragment : List Char} {t : CommentToken} {ts : List CommentToken} {p : Nat}

/-- An opened token opens a comment at its own place. -/
theorem StandsIn.opens (h : t.StandsIn fragment) (ho : t.opened = true) :
    Comment.Opens fragment t.span.start t.text (byteSize t.text) ∧
      Comment.placed fragment t.span.start t.text (byteSize t.text) = t.place := by
  obtain ⟨before, lead, closing, rest, rfl, hspan, hcontent, -, hopened⟩ := h
  obtain ⟨rfl, hclosing⟩ := hopened ho
  rw [place, hspan, hcontent]
  exact ⟨⟨before, _, rfl, rfl, Comment.matchSize?_append _ _⟩, Comment.placed_eq hclosing⟩

theorem StandsIn.start_le_stop (h : t.StandsIn fragment) : t.span.start ≤ t.span.stop := by
  obtain ⟨before, lead, closing, rest, -, hspan, -⟩ := h
  rw [hspan]
  show byteSize before ≤ byteSize before + byteSize lead + byteSize t.text + byteSize closing
  omega

theorem Clear.traces (h : Ordered fragment p ts) (k : Clear fragment p ts) :
    Comment.Traces fragment p (ts.map (·.text)) (places ts) := by
  induction ts generalizing p with
  | nil => exact Comment.Traces.done p
  | cons t ts ih =>
    obtain ⟨hp, hstands, hrest⟩ := h
    rw [Clear] at k
    rw [places_cons, List.map_cons]
    by_cases ho : t.opened = true
    · rw [if_pos ho] at k ⊢
      obtain ⟨hopens, hplace⟩ := hstands.opens ho
      have hbehind := ih hrest k.2
      have hstop : t.span.stop =
          (Comment.placed fragment t.span.start t.text (byteSize t.text)).span.stop := by
        rw [hplace]
        rfl
      rw [hstop] at hbehind
      have htrace := Comment.Traces.found hp hopens k.1 hbehind
      rw [hplace] at htrace
      exact htrace
    · rw [if_neg ho] at k ⊢
      exact Comment.Traces.lost k.1
        (ih (hrest.mono (Nat.le_trans hp hstands.start_le_stop)) k.2)

/-- Opened tokens that are all traced have nothing in their way. -/
theorem clear_of_traces (ho : ∀ t ∈ ts, t.opened = true)
    (h : Comment.Traces fragment p (ts.map (·.text)) (places ts)) : Clear fragment p ts := by
  induction ts generalizing p with
  | nil => trivial
  | cons t ts ih =>
    have hfirst := ho t (by simp)
    have hrest : ∀ t ∈ ts, t.opened = true := fun t ht => ho t (by simp [ht])
    have hlength : (places ts).length = ts.length := by
      rw [places, List.filter_eq_self.mpr hrest, List.length_map]
    rw [Clear, if_pos hfirst]
    rw [places_cons, if_pos hfirst, List.map_cons] at h
    generalize he : t.place = e at h
    cases h with
    | lost _ behind =>
      have hle := behind.length_le
      rw [List.length_cons, List.length_map, hlength] at hle
      omega
    | found le opens first behind =>
      rw [← he] at behind
      have hstart : t.span.start = _ := congrArg (fun c => c.span.start) he
      rw [hstart]
      exact ⟨first, ih hrest behind⟩

theorem StandsIn.opened_eq (h : t.StandsIn fragment) :
    t.opened = commentOpening.isPrefixOf (slice fragment t.span) := by
  obtain ⟨before, lead, closing, rest, hfragment, hspan, -, ho, hopened⟩ := h
  have htaken : slice fragment t.span = lead ++ (t.text ++ closing) := by
    have hholds : Holds fragment t.span (lead ++ (t.text ++ closing)) := by
      refine ⟨before, rest, by simp [hfragment], ?_⟩
      simp only [hspan, byteSize_append, Span.mk.injEq, true_and]
      omega
    exact hholds.slice_eq
  rw [htaken]
  cases hopen : t.opened with
  | true =>
    obtain ⟨rfl, -⟩ := hopened hopen
    exact (List.isPrefixOf_iff_prefix.mpr (List.prefix_append _ _)).symm
  | false =>
    symm
    rw [Bool.eq_false_iff]
    intro hprefix
    have hlong := (List.isPrefixOf_iff_prefix.mp hprefix).trans (List.prefix_append _ rest)
    simp only [List.append_assoc] at hlong
    rw [ho, List.isPrefixOf_iff_prefix.mpr hlong] at hopen
    cases hopen

theorem StandsIn.text_eq (h : t.StandsIn fragment) : t.text = slice fragment t.content := by
  obtain ⟨before, lead, closing, rest, hfragment, -, hcontent, -⟩ := h
  have hholds : Holds fragment t.content t.text := by
    refine ⟨before ++ lead, closing ++ rest, by simp [hfragment], ?_⟩
    rw [hcontent, byteSize_append]
  exact hholds.slice_eq.symm

theorem Ordered.standsIn (h : Ordered fragment p ts) : ∀ t ∈ ts, t.StandsIn fragment := by
  induction ts generalizing p with
  | nil => simp
  | cons t ts ih =>
    intro t' ht'
    rcases List.mem_cons.mp ht' with rfl | ht'
    · exact h.2.1
    · exact ih h.2.2 t' ht'

end CommentToken

open CommentToken

theorem tokens_ordered {fragment : List Char} {ts : List CommentToken}
    (h : tokens fragment = .ok ts) : Ordered fragment 0 ts :=
  @tokensGo_ordered _ _ [] _ _ h

theorem comments_eq_iff_traces {fragment : List Char} {ts : List CommentToken}
    (h : tokens fragment = .ok ts) (cs : List Comment) :
    comments fragment = .ok cs ↔ Comment.Traces fragment 0 (ts.map (·.text)) cs := by
  have hfound : ∃ ds, comments fragment = .ok ds ∧
      Comment.Traces fragment 0 (ts.map (·.text)) ds := by
    unfold comments
    split
    · rw [h]
      exact ⟨_, rfl, Comment.locateAll_traces _ [] fragment⟩
    · rename_i hnone
      exact ⟨[], rfl, Comment.traces_nil (Bool.eq_false_iff.mpr hnone) 0 _⟩
  obtain ⟨ds, hds, htrace⟩ := hfound
  rw [hds]
  constructor
  · intro he
    cases he
    exact htrace
  · intro k
    rw [htrace.unique k]

/-- The comments of a fragment are its opened tokens, each in the place where it
was read, if and only if these places trace the texts of all tokens. No opening
in the way of a token is enough for that, and if every token is opened it is
also needed. -/
theorem comments_eq_places_iff {fragment : List Char} {ts : List CommentToken}
    (h : tokens fragment = .ok ts) :
    (∀ t ∈ ts, t.opened = commentOpening.isPrefixOf (slice fragment t.span) ∧
      t.text = slice fragment t.content) ∧
    (comments fragment = .ok (places ts) ↔
      Comment.Traces fragment 0 (ts.map (·.text)) (places ts)) ∧
    (Clear fragment 0 ts → comments fragment = .ok (places ts)) ∧
    ((∀ t ∈ ts, t.opened = true) → comments fragment = .ok (places ts) →
      Clear fragment 0 ts) := by
  have hordered := tokens_ordered h
  have hiff := comments_eq_iff_traces h (places ts)
  refine ⟨?_, hiff, ?_, ?_⟩
  · intro t ht
    have hstands := hordered.standsIn t ht
    exact ⟨hstands.opened_eq, hstands.text_eq⟩
  · intro hclear
    exact hiff.mpr (hclear.traces hordered)
  · intro ho he
    exact clear_of_traces ho (hiff.mp he)

/-- A comment whose text also stands in a style sheet before it is found there. -/
theorem comments_ne_places_style :
    let fragment := "<style><!-- a --></style><!-- a -->".toList
    let ts : List CommentToken := [⟨⟨25, 35⟩, ⟨29, 32⟩, " a ".toList, true⟩]
    tokens fragment = .ok ts ∧ ¬ Clear fragment 0 ts ∧
      comments fragment = .ok [⟨⟨7, 17⟩, ⟨11, 14⟩⟩] := by
  intro fragment ts
  have htokens : tokens fragment = .ok ts := by rfl
  have hfound : comments fragment = .ok [⟨⟨7, 17⟩, ⟨11, 14⟩⟩] := by rfl
  refine ⟨htokens, ?_, hfound⟩
  intro hclear
  have hplaces := (comments_eq_places_iff htokens).2.2.1 hclear
  rw [hfound] at hplaces
  exact absurd (Except.ok.inj hplaces) (by decide)

end SlideDirectives.Html
