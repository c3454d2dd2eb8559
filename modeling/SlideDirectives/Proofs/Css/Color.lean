import SlideDirectives.Css.Color
import SlideDirectives.Proofs.Text.Search
import SlideDirectives.Proofs.Text.Trim

/-!
# The colors there are

A color is hexadecimal digits behind a number sign, a call of a color function,
or a name of the table, and nothing else is one. The table is in the order of its
bytes, so halving it finds all of its names. Neither the case of ASCII letters
nor white space around a text makes a color of it, or keeps it from being one.
-/

set_option autoImplicit false

namespace SlideDirectives.Css

open Text

def hexDigits : List Char :=
  ['0', '1', '2', '3', '4', '5', '6', '7', '8', '9', 'a', 'b', 'c', 'd', 'e', 'f',
   'A', 'B', 'C', 'D', 'E', 'F']

/-- The ways to write a color, where nothing stands around it. -/
inductive Spelled : List Char → Prop where
  | hex {digits : List Char} (size : digits.length ∈ [3, 4, 6, 8])
      (all : ∀ d ∈ digits, d ∈ hexDigits) : Spelled ('#' :: digits)
  | call {cs arguments : List Char} {function : String} (listed : function ∈ colorFunctions)
      (written : lower cs = lower (function.toList ++ '(' :: (arguments ++ [')']))) : Spelled cs
  | name {cs : List Char} {name : String} (listed : name ∈ colorNames)
      (written : lower cs = lower name.toList) : Spelled cs

section Signs

variable {c : Char}

theorem toLower_eq_numberSign : c.toLower = '#' ↔ c = '#' := by
  have h := apply_toLower (fun c => decide (c = '#')) (by decide) c
  simpa using h

theorem mem_hexDigits_toLower : c.toLower ∈ hexDigits ↔ c ∈ hexDigits := by
  have h := apply_toLower (fun c => decide (c ∈ hexDigits)) (by decide +kernel) c
  simpa using h

theorem isHexDigit_iff : isHexDigit c = true ↔ c ∈ hexDigits := by
  constructor
  · intro h
    have hascii : c.toNat < 128 := by
      simp only [isHexDigit, Char.isDigit, Bool.or_eq_true, Bool.and_eq_true, decide_eq_true_eq,
        Char.le_def, UInt32.le_iff_toNat_le, ge_iff_le] at h
      rcases h with (⟨-, hle⟩ | ⟨-, hle⟩) | ⟨-, hle⟩
      · exact Nat.lt_of_le_of_lt hle (by decide)
      · exact Nat.lt_of_le_of_lt hle (by decide)
      · exact Nat.lt_of_le_of_lt hle (by decide)
    have hall : ∀ n < 128, isHexDigit (Char.ofNat n) = true → Char.ofNat n ∈ hexDigits := by
      decide +kernel
    exact forall_ascii (fun c => isHexDigit c = true → c ∈ hexDigits) hall hascii h
  · have hall : hexDigits.all isHexDigit = true := by decide +kernel
    exact List.all_eq_true.mp hall c

end Signs

section Words

variable {cs rest word : List Char}

def isSmall (c : Char) : Bool :=
  'a' ≤ c && c ≤ 'z'

def isWord (cs : List Char) : Bool :=
  !cs.isEmpty && cs.all isSmall

theorem colorFunctions_words : (colorFunctions.map String.toList).all isWord = true := by
  decide +kernel

theorem colorNames_table :
    (colorNames.map String.toList).all isWord = true ∧
      (colorNames.map String.toList).IsChain (· < ·) := by
  decide +kernel

theorem isWord_function {function : String} (h : function ∈ colorFunctions) :
    isWord function.toList = true :=
  List.all_eq_true.mp colorFunctions_words _ (List.mem_map_of_mem h)

theorem isWord_name {name : String} (h : name ∈ colorNames) : isWord name.toList = true :=
  List.all_eq_true.mp colorNames_table.1 _ (List.mem_map_of_mem h)

theorem small_letter {c : Char} (h : isSmall c = true) : c ≠ '#' ∧ c ≠ '(' ∧ c.toLower = c := by
  have hascii : c.toNat < 128 := by
    simp only [isSmall, Bool.and_eq_true, decide_eq_true_eq, Char.le_def,
      UInt32.le_iff_toNat_le] at h
    exact Nat.lt_of_le_of_lt h.2 (by decide)
  exact forall_ascii (fun c => isSmall c = true → c ≠ '#' ∧ c ≠ '(' ∧ c.toLower = c)
    (by decide) hascii h

theorem isWord_letters (h : isWord word = true) : ∀ c ∈ word, c ≠ '#' ∧ c ≠ '(' ∧ c.toLower = c := by
  rw [isWord, Bool.and_eq_true, List.all_eq_true] at h
  exact fun c hc => small_letter (h.2 c hc)

theorem lower_word (h : isWord word = true) : lower word = word := by
  rw [lower, List.map_congr_left fun c hc => (isWord_letters h c hc).2.2, List.map_id']

theorem lower_call (h : isWord word = true) (arguments : List Char) :
    lower (word ++ '(' :: (arguments ++ [')'])) = word ++ '(' :: (lower arguments ++ [')']) := by
  calc
    lower (word ++ '(' :: (arguments ++ [')']))
        = lower word ++ lower ('(' :: (arguments ++ [')'])) := lower_append _ _
    _ = word ++ '(' :: lower (arguments ++ [')']) := by
      rw [lower_word h]
      rfl
    _ = word ++ '(' :: (lower arguments ++ [')']) := by
      rw [lower_append]
      rfl

theorem isWord_head (h : isWord word = true) : (word ++ rest).head? ≠ some '#' := by
  cases word with
  | nil => cases h
  | cons c cs =>
    intro hhead
    exact (isWord_letters h c List.mem_cons_self).1 (Option.some.inj hhead)

end Words

section Forms

variable {cs cs' digits : List Char}

theorem isColorCall_append {before : List Char} (h : '(' ∉ before) (behind : List Char) :
    isColorCall (before ++ '(' :: behind) = true ↔
      (∃ function ∈ colorFunctions, function.toList = before) ∧ behind.getLast? = some ')' := by
  have hbefore : (before ++ '(' :: behind).takeWhile (· != '(') = before := by
    have hall : ∀ c ∈ before, (c != '(') = true := by
      intro c hc
      rw [bne_iff_ne]
      rintro rfl
      exact h hc
    rw [List.takeWhile_append_of_pos hall, List.takeWhile_cons_of_neg (by simp), List.append_nil]
  have hbehind : (before ++ '(' :: behind).drop (before.length + 1) = behind := by
    simp [List.drop_append]
  simp only [isColorCall, hbefore, hbehind, Bool.and_eq_true, List.any_eq_true, beq_iff_eq]

theorem isColorCall_iff : (cs.contains '(' = true ∧ isColorCall cs = true) ↔
    ∃ function ∈ colorFunctions, ∃ arguments,
      cs = function.toList ++ '(' :: (arguments ++ [')']) := by
  constructor
  · rintro ⟨hopens, hcall⟩
    obtain ⟨before, behind, rfl, hbefore⟩ :=
      List.eq_append_cons_of_mem (List.contains_iff_mem.mp hopens)
    obtain ⟨⟨function, hlisted, hname⟩, hlast⟩ := (isColorCall_append hbefore behind).mp hcall
    obtain ⟨arguments, rfl⟩ := List.getLast?_eq_some_iff.mp hlast
    exact ⟨function, hlisted, arguments, by rw [hname]⟩
  · rintro ⟨function, hlisted, arguments, rfl⟩
    have hname : '(' ∉ function.toList := fun h =>
      (isWord_letters (isWord_function hlisted) _ h).2.1 rfl
    refine ⟨by simp, (isColorCall_append hname _).mpr ⟨⟨function, hlisted, rfl⟩, ?_⟩⟩
    simp

theorem search_colorNames {t : List Char} :
    search t (colorNames.map String.toList) = true ↔ t ∈ colorNames.map String.toList :=
  search_eq_true (List.isChain_iff_pairwise.mp colorNames_table.2)

theorem byteSize_hex (h : ∀ d ∈ digits, d ∈ hexDigits) : byteSize digits = digits.length := by
  induction digits with
  | nil => rfl
  | cons d digits ih =>
    have hall : hexDigits.all (fun d => d.utf8Size = 1) = true := by decide +kernel
    have hone : d.utf8Size = 1 := by
      simpa using List.all_eq_true.mp hall d (h d List.mem_cons_self)
    rw [byteSize, ih fun c hc => h c (List.mem_cons_of_mem d hc), hone, List.length_cons,
      Nat.add_comm]

theorem isHexColor_iff : isHexColor digits = true ↔
    digits.length ∈ [3, 4, 6, 8] ∧ ∀ d ∈ digits, d ∈ hexDigits := by
  rw [isHexColor, Bool.and_eq_true, List.all_eq_true, List.contains_iff_mem]
  simp only [isHexDigit_iff]
  constructor
  · rintro ⟨hsize, hall⟩
    rw [byteSize_hex hall] at hsize
    exact ⟨hsize, hall⟩
  · rintro ⟨hsize, hall⟩
    rw [byteSize_hex hall]
    exact ⟨hsize, hall⟩

theorem spelled_hex : Spelled ('#' :: digits) ↔ isHexColor digits = true := by
  rw [isHexColor_iff]
  -- no function name and no color name starts with the sign
  have hword {word rest : List Char} (hw : isWord word = true) :
      lower ('#' :: digits) ≠ lower (word ++ rest) := by
    rw [lower_append, lower_word hw]
    intro heq
    have hhead : (word ++ lower rest).head? ≠ some '#' := isWord_head hw
    exact hhead (congrArg List.head? heq.symm)
  constructor
  · intro h
    cases h with
    | hex size all => exact ⟨size, all⟩
    | call listed written => exact absurd written (hword (isWord_function listed))
    | @name _ name listed written =>
      rw [← List.append_nil name.toList] at written
      exact absurd written (hword (isWord_name listed))
  · rintro ⟨hsize, hall⟩
    exact .hex hsize hall

theorem spelled_words (h : cs.head? ≠ some '#') : Spelled cs ↔
    (∃ function ∈ colorFunctions, ∃ arguments,
      lower cs = function.toList ++ '(' :: (arguments ++ [')'])) ∨
      lower cs ∈ colorNames.map String.toList := by
  constructor
  · intro hspelled
    cases hspelled with
    | hex => exact absurd rfl h
    | @call _ arguments function listed written =>
      rw [lower_call (isWord_function listed)] at written
      exact .inl ⟨function, listed, lower arguments, written⟩
    | @name _ name listed written =>
      rw [lower_word (isWord_name listed)] at written
      exact .inr (written ▸ List.mem_map_of_mem listed)
  · rintro (⟨function, hlisted, arguments, hcall⟩ | hname)
    · exact .call hlisted (by rw [← hcall, lower_lower])
    · obtain ⟨name, hlisted, hname⟩ := List.mem_map.mp hname
      exact .name hlisted (by rw [hname, lower_lower])

theorem spelled_words_iff (h : cs.head? ≠ some '#') : Spelled cs ↔
    (if (lower cs).contains '(' then isColorCall (lower cs)
      else search (lower cs) (colorNames.map String.toList)) = true := by
  rw [spelled_words h, ← isColorCall_iff, ← search_colorNames]
  by_cases hopens : (lower cs).contains '(' = true
  · -- a text with a parenthesis is none of the names
    have hname : search (lower cs) (colorNames.map String.toList) ≠ true := by
      rw [Ne, search_colorNames]
      intro hmem
      have hword := List.all_eq_true.mp colorNames_table.1 _ hmem
      exact (isWord_letters hword '(' (List.contains_iff_mem.mp hopens)).2.1 rfl
    rw [if_pos hopens, or_iff_left hname, and_iff_right hopens]
  · rw [if_neg hopens, or_iff_right fun hcall => hopens hcall.1]

theorem isColor_iff (text : List Char) : isColor text = true ↔ Spelled (trim text) := by
  unfold isColor
  split
  case h_1 digits htext => rw [htext, spelled_hex]
  case h_2 hnone =>
    have hhead : (trim text).head? ≠ some '#' := by
      intro hhead
      obtain ⟨digits, htext⟩ := List.head?_eq_some_iff.mp hhead
      exact hnone digits htext
    exact (spelled_words_iff hhead).symm

theorem Spelled.of_lower (hlower : lower cs = lower cs') (h : Spelled cs) : Spelled cs' := by
  cases h with
  | @hex digits size all =>
    cases cs' with
    | nil => cases hlower
    | cons c digits' =>
      rw [lower, lower, List.map_cons, List.map_cons, List.cons.injEq] at hlower
      obtain ⟨hsign, hdigits⟩ := hlower
      have hlength : digits.length = digits'.length := by
        simpa using congrArg List.length hdigits
      have hall : ∀ d ∈ digits', d ∈ hexDigits := by
        intro d hd
        rw [← mem_hexDigits_toLower]
        have hmem : d.toLower ∈ digits.map Char.toLower := by
          rw [hdigits]
          exact List.mem_map_of_mem hd
        obtain ⟨d', hd', hsame⟩ := List.mem_map.mp hmem
        rw [← hsame, mem_hexDigits_toLower]
        exact all d' hd'
      rw [toLower_eq_numberSign.mp hsign.symm]
      exact .hex (hlength ▸ size) hall
  | call listed written => exact .call listed (hlower.symm.trans written)
  | name listed written => exact .name listed (hlower.symm.trans written)

end Forms

/-- **What a color is.** A text is a color exactly when it is spelled as one once
the white space around it is gone. The names are in the order of their bytes, which
is that of the search by halves, and it finds them and nothing else. The answer is
the same for all texts that differ in the case of ASCII letters and in white space
around them. -/
theorem color_language :
    (∀ text, isColor text = true ↔ Spelled (trim text)) ∧
      ((colorNames.map fun name => bytes name.toList).Pairwise (· < ·) ∧
        ∀ t u, order t u = .lt ↔ bytes t < bytes u) ∧
      (∀ t, search t (colorNames.map String.toList) = true ↔ ∃ name ∈ colorNames, name.toList = t) ∧
      ∀ before text other after, (∀ c ∈ before ++ after, isBlank c = true) →
        lower text = lower other → isColor (before ++ text ++ after) = isColor other := by
  refine ⟨isColor_iff, ⟨?_, fun t u => order_bytes⟩, fun t => ?_,
    fun before text other after hblank hlower => ?_⟩
  case refine_1 =>
    have hnames := List.isChain_iff_pairwise.mp colorNames_table.2
    rw [List.pairwise_map] at hnames ⊢
    exact hnames.imp bytes_lt
  case refine_2 => rw [search_colorNames, List.mem_map]
  case refine_3 =>
    have hbefore : ∀ c ∈ before, isBlank c = true :=
      fun c hc => hblank c (List.mem_append_left after hc)
    have hafter : ∀ c ∈ after, isBlank c = true :=
      fun c hc => hblank c (List.mem_append_right before hc)
    have htrim : lower (trim text) = lower (trim other) := by
      rw [← trim_lower, ← trim_lower, hlower]
    rw [Bool.eq_iff_iff, isColor_iff, isColor_iff, trim_padded hbefore hafter]
    exact ⟨Spelled.of_lower htrim, Spelled.of_lower htrim.symm⟩

/-- An ideographic space and a line feed stand around a call in capital letters. -/
theorem color_language_capitals :
    (∀ c ∈ ['\u3000'] ++ ['\n'], isBlank c = true) ∧
      lower "RGB(0,0)".toList = lower "rgb(0,0)".toList ∧
      isColor (['\u3000'] ++ "RGB(0,0)".toList ++ ['\n']) = isColor "rgb(0,0)".toList ∧
      isColor "rgb(0,0)".toList = true := by
  have hblank : ∀ c ∈ ['\u3000'] ++ ['\n'], isBlank c = true :=
    List.all_eq_true.mp (by decide)
  have hlower : lower "RGB(0,0)".toList = lower "rgb(0,0)".toList := by decide +kernel
  exact ⟨hblank, hlower, color_language.2.2.2 _ _ _ _ hblank hlower, by decide +kernel⟩

end SlideDirectives.Css
