/-!
# Literal replacement

Replacing every occurrence of one text in another, from left to right and without overlaps: after
an occurrence the search goes on behind it, so a replacement is never searched again.

`after?` takes a pattern off the front of a text, and `after?_eq_some_iff` says that it does just
that.  `replaceAll` is stated over lists of characters, `replace` over strings.
-/

namespace Bindery.Text

/-- What follows `pattern` in a text that begins with it. -/
def after? : (pattern text : List Char) → Option (List Char)
  | [], text => some text
  | _ :: _, [] => none
  | p :: ps, c :: cs => if p = c then after? ps cs else none

/-- What is left behind a pattern that a text begins with. -/
theorem after?_eq_some_iff {pattern text rest : List Char} :
    after? pattern text = some rest ↔ text = pattern ++ rest := by
  induction pattern generalizing text with
  | nil => simp [after?]
  | cons p ps ih =>
    cases text with
    | nil => simp [after?]
    | cons c cs =>
      by_cases h : p = c
      · simp [after?, h, ih]
      · simp [after?, h, Ne.symm h]

theorem length_of_after? {pattern text rest : List Char} (h : after? pattern text = some rest) :
    text.length = pattern.length + rest.length := by
  rw [after?_eq_some_iff.1 h, List.length_append]

/-- Replaces every occurrence of the pattern `p :: ps`, leftmost first, by `replacement`.  A
pattern has at least one character, so the search always moves on. -/
def replaceAll (p : Char) (ps replacement : List Char) : (text : List Char) → List Char
  | [] => []
  | c :: cs =>
    match _h : after? (p :: ps) (c :: cs) with
    | some rest => replacement ++ replaceAll p ps replacement rest
    | none => c :: replaceAll p ps replacement cs
termination_by text => text.length
decreasing_by
  · have := length_of_after? _h
    simp only [List.length_cons] at this ⊢
    omega
  · simp

/-- `text` with every occurrence of `pattern` replaced.  The empty pattern occurs nowhere. -/
def replace (pattern replacement text : String) : String :=
  match pattern.toList with
  | [] => text
  | p :: ps => String.ofList (replaceAll p ps replacement.toList text.toList)

/-! ## Reading `replaceAll` -/

@[simp]
theorem replaceAll_nil (p : Char) (ps replacement : List Char) :
    replaceAll p ps replacement [] = [] := by
  rw [replaceAll]

theorem replaceAll_append (p : Char) (ps replacement rest : List Char) :
    replaceAll p ps replacement ((p :: ps) ++ rest) =
      replacement ++ replaceAll p ps replacement rest := by
  have h : after? (p :: ps) (p :: (ps ++ rest)) = some rest := after?_eq_some_iff.2 rfl
  rw [List.cons_append, replaceAll]
  split
  · next r hr => rw [h] at hr; rw [Option.some.inj hr]
  · next hr => rw [h] at hr; exact absurd hr (by simp)

/-- A character that begins no occurrence is kept. -/
theorem replaceAll_cons_of_not_occurs {p c : Char} {ps cs : List Char} (replacement : List Char)
    (h : after? (p :: ps) (c :: cs) = none) :
    replaceAll p ps replacement (c :: cs) = c :: replaceAll p ps replacement cs := by
  rw [replaceAll]
  split
  · next hr => rw [h] at hr; exact absurd hr (by simp)
  · rfl

end Bindery.Text
