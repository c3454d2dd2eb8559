import Mathlib.Data.List.DropRight
import SlideDirectives.Proofs.Html.CommentPlace

/-!
# The padding of a comment

The content of a comment is cut into dashes, white space, the body, white space
and dashes again. Each run is the longest there is in what the runs before it
leave, and those at the start come first, so a content made of padding alone is
cut in one way only. A body with solid ends comes back from any padding.
-/

set_option autoImplicit false

namespace SlideDirectives.Text

/-- The longest run of characters with `p` that a text starts with. -/
structure LeadingRun (p : Char → Bool) (run cs : List Char) : Prop where
  start : run <+: cs
  all : ∀ c ∈ run, p c = true
  longest : ∀ other, other <+: cs → (∀ c ∈ other, p c = true) → other <+: run

/-- The longest run of characters with `p` that a text ends with. -/
structure TrailingRun (p : Char → Bool) (run cs : List Char) : Prop where
  stop : run <:+ cs
  all : ∀ c ∈ run, p c = true
  longest : ∀ other, other <:+ cs → (∀ c ∈ other, p c = true) → other <:+ run

section Runs

variable {p : Char → Bool} {run other cs rest : List Char}

theorem leadingRun_append (hrun : ∀ c ∈ run, p c = true) (hrest : ∀ c ∈ rest.head?, p c = false) :
    LeadingRun p run (run ++ rest) := by
  refine ⟨List.prefix_append run rest, hrun, ?_⟩
  intro other hother hall
  rcases List.prefix_or_prefix_of_prefix hother (List.prefix_append run rest) with h | ⟨more, rfl⟩
  · exact h
  · cases more with
    | nil => simp
    | cons c more =>
      obtain ⟨tail, rfl⟩ : c::more <+: rest := (List.prefix_append_right_inj run).mp hother
      have hc : p c = true := hall c (by simp)
      rw [hrest c rfl] at hc
      cases hc

theorem leadingRun_takeWhile (p : Char → Bool) (cs : List Char) :
    LeadingRun p (cs.takeWhile p) cs := by
  have hrest : ∀ c ∈ (cs.dropWhile p).head?, p c = false := by
    intro c hc
    have hnot := List.head?_dropWhile_not p cs
    rw [Option.mem_def.mp hc] at hnot
    simpa using hnot
  have hrun : ∀ c ∈ cs.takeWhile p, p c = true := fun c hc => List.mem_takeWhile_imp hc
  have happend := leadingRun_append hrun hrest
  rwa [List.takeWhile_append_dropWhile] at happend

theorem LeadingRun.unique (h : LeadingRun p run cs) (h' : LeadingRun p other cs) : run = other :=
  List.IsPrefix.eq_of_length_le (h'.longest run h.start h.all) (h.longest other h'.start h'.all).length_le

theorem LeadingRun.eq_takeWhile (h : LeadingRun p run cs) : run = cs.takeWhile p :=
  h.unique (leadingRun_takeWhile p cs)

theorem LeadingRun.eq_dropWhile (h : LeadingRun p run (run ++ rest)) :
    rest = (run ++ rest).dropWhile p := by
  have hcut : (run ++ rest).takeWhile p ++ (run ++ rest).dropWhile p = run ++ rest :=
    List.takeWhile_append_dropWhile
  rw [← h.eq_takeWhile] at hcut
  exact (List.append_cancel_left hcut).symm

theorem LeadingRun.head (h : LeadingRun p run (run ++ rest)) : ∀ c ∈ rest.head?, p c = false := by
  intro c hc
  have hnot := List.head?_dropWhile_not p (run ++ rest)
  rw [← h.eq_dropWhile, Option.mem_def.mp hc] at hnot
  simpa using hnot

theorem trailingRun_reverse : TrailingRun p run cs ↔ LeadingRun p run.reverse cs.reverse := by
  constructor
  · intro h
    refine ⟨List.reverse_prefix.mpr h.stop, by simpa using h.all, ?_⟩
    intro other hother hall
    have hback : other.reverse <:+ cs := by
      rw [← List.reverse_prefix, List.reverse_reverse]
      exact hother
    have hrun := h.longest other.reverse hback (by simpa using hall)
    rwa [← List.reverse_prefix, List.reverse_reverse] at hrun
  · intro h
    refine ⟨List.reverse_prefix.mp h.start, by simpa using h.all, ?_⟩
    intro other hother hall
    exact List.reverse_prefix.mp
      (h.longest other.reverse (List.reverse_prefix.mpr hother) (by simpa using hall))

theorem trailingRun_append (hrun : ∀ c ∈ run, p c = true)
    (hrest : ∀ c ∈ rest.getLast?, p c = false) : TrailingRun p run (rest ++ run) := by
  rw [trailingRun_reverse, List.reverse_append]
  refine leadingRun_append (by simpa using hrun) ?_
  rwa [List.head?_reverse]

theorem trailingRun_rtakeWhile (p : Char → Bool) (cs : List Char) :
    TrailingRun p (cs.rtakeWhile p) cs := by
  rw [trailingRun_reverse, List.rtakeWhile, List.reverse_reverse]
  exact leadingRun_takeWhile p cs.reverse

theorem TrailingRun.eq_rtakeWhile (h : TrailingRun p run cs) : run = cs.rtakeWhile p := by
  have hback := (trailingRun_reverse.mp h).eq_takeWhile
  rw [List.rtakeWhile, ← hback, List.reverse_reverse]

theorem dropEndWhile_append_rtakeWhile (p : Char → Bool) (cs : List Char) :
    dropEndWhile p cs ++ cs.rtakeWhile p = cs :=
  List.rdropWhile_append_rtakeWhile

theorem TrailingRun.eq_dropEndWhile (h : TrailingRun p run (rest ++ run)) :
    rest = dropEndWhile p (rest ++ run) := by
  have hcut := dropEndWhile_append_rtakeWhile p (rest ++ run)
  rw [← h.eq_rtakeWhile] at hcut
  exact (List.append_cancel_right hcut).symm

theorem TrailingRun.last (h : TrailingRun p run (rest ++ run)) :
    ∀ c ∈ rest.getLast?, p c = false := by
  have hback := trailingRun_reverse.mp h
  rw [List.reverse_append] at hback
  have hhead := hback.head
  rwa [List.head?_reverse] at hhead

end Runs

end SlideDirectives.Text

namespace SlideDirectives.Html

open Text

def isDash (c : Char) : Bool :=
  c == '-'

@[ext]
structure Padded where
  opening : List Char
  before : List Char
  body : List Char
  after : List Char
  closing : List Char
  deriving DecidableEq, Repr

namespace Padded

def left (p : Padded) : List Char :=
  p.body ++ p.after ++ p.closing

def text (p : Padded) : List Char :=
  p.opening ++ (p.before ++ p.left)

def removed (p : Padded) : Nat :=
  byteSize (p.opening ++ p.before)

/-- Each run is the longest one in what the runs before it leave. -/
structure Exact (p : Padded) : Prop where
  opening : LeadingRun isDash p.opening p.text
  before : LeadingRun isBlank p.before (p.before ++ p.left)
  closing : TrailingRun isDash p.closing p.left
  after : TrailingRun isBlank p.after (p.body ++ p.after)

/-- Neither a dash nor white space. -/
def IsSolid (c : Char) : Prop :=
  isDash c = false ∧ isBlank c = false

/-- Padding of any size around a body with solid ends. -/
structure Written (p : Padded) : Prop where
  opening : ∀ c ∈ p.opening, isDash c = true
  before : ∀ c ∈ p.before, isBlank c = true
  body : p.body ≠ []
  first : ∀ c ∈ p.body.head?, IsSolid c
  last : ∀ c ∈ p.body.getLast?, IsSolid c
  after : ∀ c ∈ p.after, isBlank c = true
  closing : ∀ c ∈ p.closing, isDash c = true

def ofContent (content : List Char) : Padded :=
  let inner := content.dropWhile isDash
  let left := trimStart inner
  let kept := dropEndWhile isDash left
  ⟨content.takeWhile isDash, inner.takeWhile isBlank, trimEnd kept, kept.rtakeWhile isBlank,
    left.rtakeWhile isDash⟩

variable {p : Padded}

theorem isDash_of_isBlank {c : Char} (h : isBlank c = true) : isDash c = false := by
  rw [isDash, beq_eq_false_iff_ne]
  rintro rfl
  exact absurd h (by decide)

theorem left_ofContent (content : List Char) :
    (ofContent content).left = trimStart (content.dropWhile isDash) := by
  simp only [left, ofContent, trimEnd, dropEndWhile_append_rtakeWhile]

theorem text_ofContent (content : List Char) : (ofContent content).text = content := by
  rw [text, left_ofContent]
  simp only [ofContent, takeWhile_append_trimStart, List.takeWhile_append_dropWhile]

theorem ofContent_exact (content : List Char) : (ofContent content).Exact := by
  have hleft := left_ofContent content
  constructor
  case opening =>
    rw [text_ofContent]
    exact leadingRun_takeWhile isDash content
  case before =>
    rw [hleft]
    simp only [ofContent, takeWhile_append_trimStart]
    exact leadingRun_takeWhile isBlank _
  case closing =>
    rw [hleft]
    exact trailingRun_rtakeWhile isDash _
  case after =>
    simp only [ofContent, trimEnd, dropEndWhile_append_rtakeWhile]
    exact trailingRun_rtakeWhile isBlank _

/-- Only one cut of a content has the longest runs. -/
theorem Exact.eq_ofContent (h : p.Exact) : p = ofContent p.text := by
  have hopening : p.opening = p.text.takeWhile isDash := h.opening.eq_takeWhile
  have hinner : p.before ++ p.left = p.text.dropWhile isDash := h.opening.eq_dropWhile
  have hbefore : p.before = (p.before ++ p.left).takeWhile isBlank := h.before.eq_takeWhile
  have hleft : p.left = trimStart (p.before ++ p.left) := h.before.eq_dropWhile
  have hclosing : p.closing = p.left.rtakeWhile isDash := h.closing.eq_rtakeWhile
  have hkept : p.body ++ p.after = dropEndWhile isDash p.left := h.closing.eq_dropEndWhile
  have hafter : p.after = (p.body ++ p.after).rtakeWhile isBlank := h.after.eq_rtakeWhile
  have hbody : p.body = trimEnd (p.body ++ p.after) := h.after.eq_dropEndWhile
  rw [hinner] at hbefore hleft
  rw [hkept] at hafter hbody
  rw [hleft] at hclosing hafter hbody
  exact Padded.ext hopening hbefore hbody hafter hclosing

theorem Exact.trimmed (h : p.Exact) :
    ∀ c, p.body.head? = some c ∨ p.body.getLast? = some c → isBlank c = false := by
  rintro c (hc | hc)
  · exact h.before.head c (by simp [left, hc])
  · exact h.after.last c hc

theorem Written.exact (h : p.Written) : p.Exact := by
  obtain ⟨c, hc⟩ : ∃ c, p.body.head? = some c :=
    Option.isSome_iff_exists.mp (by simpa using h.body)
  obtain ⟨d, hd⟩ : ∃ d, p.body.getLast? = some d :=
    Option.isSome_iff_exists.mp (by simpa using h.body)
  have hfirst : p.left.head? = some c := by simp [left, hc]
  have hsolid : IsSolid c := h.first c hc
  constructor
  case opening =>
    refine leadingRun_append h.opening ?_
    intro e he
    cases hbefore : p.before with
    | nil =>
      rw [hbefore, List.nil_append, hfirst] at he
      obtain rfl := Option.some.inj he
      exact hsolid.1
    | cons b bs =>
      rw [hbefore] at he
      obtain rfl := Option.some.inj he
      exact isDash_of_isBlank (h.before b (by simp [hbefore]))
  case before =>
    refine leadingRun_append h.before ?_
    rw [hfirst]
    rintro e ⟨⟩
    exact hsolid.2
  case closing =>
    refine trailingRun_append h.closing ?_
    intro e he
    rcases List.eq_nil_or_concat p.after with hafter | ⟨as, a, hafter⟩
    · rw [hafter, List.append_nil, hd] at he
      obtain rfl := Option.some.inj he
      exact (h.last d hd).1
    · rw [hafter] at he
      have hea : e = a := by simpa using he.symm
      exact isDash_of_isBlank (h.after e (by simp [hafter, hea]))
  case after =>
    refine trailingRun_append h.after ?_
    rw [hd]
    rintro e ⟨⟩
    exact (h.last d hd).2

end Padded

/-- What is stripped from a content is its padding in that cut. -/
theorem stripPadding_eq (content : List Char) :
    stripPadding content = ((Padded.ofContent content).removed, (Padded.ofContent content).body) := by
  have hsize := congrArg byteSize (Padded.text_ofContent content)
  rw [Padded.text, ← List.append_assoc, byteSize_append, Padded.left_ofContent] at hsize
  have hremoved : byteSize content - byteSize (trimStart (content.dropWhile isDash)) =
      (Padded.ofContent content).removed := by
    rw [Padded.removed]
    omega
  change (byteSize content - byteSize (trimStart (content.dropWhile isDash)), _) = _
  rw [hremoved]
  rfl

/-- Every content is cut into its longest runs in one way, the body is what
stands in the content behind the bytes removed, and padding that was written
around a body with solid ends is removed exactly. -/
theorem stripPadding_decomposes (content : List Char) :
    ∃ p : Padded, p.text = content ∧ p.Exact ∧ stripPadding content = (p.removed, p.body) ∧
      slice content ⟨p.removed, p.removed + byteSize p.body⟩ = p.body ∧
      (isBoundary content p.removed = true ∧
        isBoundary content (p.removed + byteSize p.body) = true) ∧
      (∀ c, p.body.head? = some c ∨ p.body.getLast? = some c → isBlank c = false) ∧
      (∀ q : Padded, q.text = content → q.Exact → q = p) ∧
      ∀ q : Padded, q.text = content → q.Written →
        stripPadding content = (q.removed, q.body) := by
  have hexact : (Padded.ofContent content).Exact := Padded.ofContent_exact content
  have hstrip := stripPadding_eq content
  have hholds := stripPadding_holds content
  rw [hstrip] at hholds
  have honly : ∀ q : Padded, q.text = content → q.Exact → q = Padded.ofContent content := by
    intro q htext hq
    rw [← htext]
    exact hq.eq_ofContent
  refine ⟨Padded.ofContent content, Padded.text_ofContent content, hexact, hstrip,
    hholds.slice_eq, ⟨hholds.fits.startBoundary, hholds.fits.stopBoundary⟩, hexact.trimmed, honly, ?_⟩
  intro q htext hq
  rw [honly q htext hq.exact]
  exact hstrip

/-- Dashes and white space of three bytes around a body with dashes inside. -/
theorem stripPadding_decomposes_wide :
    let q : Padded :=
      ⟨"--".toList, "\u3000\n".toList, "_class: -a".toList, " ".toList, "---".toList⟩
    q.Written ∧ stripPadding "--\u3000\n_class: -a ---".toList = (6, "_class: -a".toList) := by
  intro q
  have hq : q.Written := by
    constructor <;> simp [q, Padded.IsSolid, isDash] <;> decide
  obtain ⟨-, -, -, -, -, -, -, -, hwritten⟩ := stripPadding_decomposes q.text
  exact ⟨hq, hwritten q rfl hq⟩

example : stripPadding "--- ---".toList = (4, []) := by decide

end SlideDirectives.Html
