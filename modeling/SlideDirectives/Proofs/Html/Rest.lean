import SlideDirectives.Html.Comment
import SlideDirectives.Proofs.Text.Boundary

/-!
# What the reading of HTML leaves

Every step of the reading takes characters from the front of the text and
leaves the rest of it as it was. A comment is taken in three parts: its
content, the delimiter that closes it, and what follows.
-/

set_option autoImplicit false

namespace SlideDirectives.Html

open Text

namespace Closed

/-- Nothing of a comment has been read as content in the modes right after its
opening. -/
def Mode.Fresh (m : Mode) (acc : List Char) : Prop :=
  m = .opening ∨ m = .openingDash → acc = []

theorem Mode.held_next (m : Mode) (c : Char) :
    (m.next c).2 ++ (m.next c).1.held = m.held ++ [c] := by
  fun_cases Mode.next m c <;> simp [Mode.held]

theorem Mode.fresh_next {m : Mode} {acc : List Char} (c : Char) (h : m.Fresh acc) :
    (m.next c).1.Fresh ((m.next c).2.reverse ++ acc) := by
  intro hm
  fun_cases Mode.next m c
  case case1 => exact h (Or.inl rfl)
  all_goals simp_all [Mode.next]

theorem go_parts (m : Mode) (acc cs : List Char) :
    (go m acc cs).content ++ ((go m acc cs).closing ++ (go m acc cs).rest) =
      acc.reverse ++ (m.held ++ cs) := by
  induction cs generalizing m acc with
  | nil => simp [go]
  | cons c cs ih =>
    rw [go]
    split
    · rename_i hclose
      rw [hclose.1]
      simp
    · have hnext := m.held_next c
      rw [ih, List.reverse_append, List.reverse_reverse, List.append_assoc,
        ← List.append_assoc (m.next c).2, hnext]
      simp

theorem ofText_parts (cs : List Char) :
    (ofText cs).content ++ ((ofText cs).closing ++ (ofText cs).rest) = cs :=
  go_parts .opening [] cs

theorem bogus_parts (cs : List Char) :
    (bogus cs).content ++ ((bogus cs).closing ++ (bogus cs).rest) = cs := by
  simp only [bogus, List.take_append_drop, List.takeWhile_append_dropWhile]

theorem go_closing {m : Mode} {acc : List Char} (h : m.Fresh acc) (cs : List Char) :
    Comment.closingSize (go m acc cs).content.isEmpty
        ((go m acc cs).closing ++ (go m acc cs).rest) = byteSize (go m acc cs).closing := by
  have hdash : ('-' : Char).utf8Size = 1 := rfl
  have hbang : ('!' : Char).utf8Size = 1 := rfl
  have hbracket : ('>' : Char).utf8Size = 1 := rfl
  induction cs generalizing m acc with
  | nil =>
    cases m <;> simp [go, Mode.held, Comment.closingSize, List.isPrefixOf]
  | cons c cs ih =>
    rw [go]
    split
    · rename_i hclose
      cases m with
      | opening =>
        simp [h (Or.inl rfl), Mode.held, Comment.closingSize, List.isPrefixOf, byteSize, *]
      | openingDash =>
        simp [h (Or.inr rfl), Mode.held, Comment.closingSize, List.isPrefixOf, byteSize, *]
      | content => cases hclose.2
      | dash => cases hclose.2
      | dashes => simp [Mode.held, Comment.closingSize, List.isPrefixOf, byteSize, *]
      | bang => simp [Mode.held, Comment.closingSize, List.isPrefixOf, byteSize, *]
    · exact ih (m.fresh_next c h)

theorem ofText_closing (cs : List Char) :
    Comment.closingSize (ofText cs).content.isEmpty ((ofText cs).closing ++ (ofText cs).rest) =
      byteSize (ofText cs).closing :=
  go_closing (fun _ => rfl) cs

theorem bogus_rest_isSuffix (cs : List Char) : (bogus cs).rest <:+ cs :=
  ⟨(bogus cs).content ++ (bogus cs).closing, by rw [List.append_assoc, bogus_parts]⟩

end Closed

theorem Tag.go_isSuffix {m : Tag.Mode} {d : Tag.Draft} {cs rest : List Char} {t : Tag}
    (h : Tag.go m d cs = some (t, rest)) : rest <:+ cs := by
  induction cs generalizing m d with
  | nil => cases h
  | cons c cs ih =>
    rw [Tag.go] at h
    split at h
    · cases h
      exact List.suffix_cons c _
    · exact (ih h).trans (List.suffix_cons c cs)

theorem afterCdata_isSuffix (cs : List Char) : afterCdata cs <:+ cs := by
  fun_induction afterCdata cs with
  | case1 cs => exact ⟨[']', ']', '>'], rfl⟩
  | case2 c cs _ ih => exact ih.trans (List.suffix_cons c cs)
  | case3 => exact List.suffix_refl []

namespace RawText

theorem skip_isSuffix (name cs : List Char) : skip name cs <:+ cs := by
  fun_induction skip name cs with
  | case1 => exact List.suffix_refl []
  | case2 => exact List.suffix_refl _
  | case3 cs _ ih => exact ih.trans (List.suffix_cons '<' _)
  | case4 c cs _ ih => exact ih.trans (List.suffix_cons c cs)

theorem skipScript_isSuffix (name : List Char) (m : Mode) (dashes : Nat) (cs : List Char) :
    skipScript name m dashes cs <:+ cs := by
  fun_induction skipScript name m dashes cs with
  | case1 => exact List.suffix_refl []
  | case2 _ cs ih => exact ih.trans ⟨['<', '!', '-', '-'], rfl⟩
  | case4 => exact List.suffix_refl _
  | _ =>
    rename_i ih
    exact ih.trans (List.suffix_cons _ _)

theorem rest_isSuffix (type : TextType) (name cs : List Char) : rest type name cs <:+ cs := by
  cases type with
  | raw => exact skip_isSuffix name cs
  | script => exact skipScript_isSuffix name .plain 0 cs
  | endless => exact List.nil_suffix

end RawText

end SlideDirectives.Html
