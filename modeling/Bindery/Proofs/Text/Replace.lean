import Bindery.Text.Replace
import Mathlib.Data.List.Infix

/-!
# What a replacement is

`Replaced pattern replacement text out` says that `out` is `text` with the occurrences of `pattern`
replaced, leftmost first and without overlaps: the text is split at the first occurrence, what
stands before it stays, and the same is done behind it, until the pattern occurs no more.  Nothing
is said there about going through a text one character at a time, as `replaceAll` does.

For a pattern that is not empty the relation is that function (`replaced_iff`).
-/

namespace Bindery.Text

variable {pattern replacement text out out' before behind : List Char} {c p : Char} {ps : List Char}

/-- `out` is `text` with every occurrence of `pattern` replaced, leftmost first. -/
inductive Replaced (pattern replacement : List Char) : List Char → List Char → Prop where
  | absent {text : List Char} (h : ¬ pattern <:+: text) : Replaced pattern replacement text text
  /-- The pattern occurs behind `before` and not earlier. -/
  | occurrence (before : List Char) {behind out : List Char}
    (hleftmost : ∀ front back, before ++ (pattern ++ behind) = front ++ (pattern ++ back) →
      before.length ≤ front.length)
    (h : Replaced pattern replacement behind out) :
    Replaced pattern replacement (before ++ (pattern ++ behind)) (before ++ (replacement ++ out))

/-- A character in front changes nothing else if no occurrence begins with it. -/
lemma Replaced.cons (hnone : ¬ pattern <+: c :: text)
    (h : Replaced pattern replacement text out) :
    Replaced pattern replacement (c :: text) (c :: out) := by
  cases h with
  | absent habsent => exact .absent fun hinfix => (List.infix_cons_iff.1 hinfix).elim hnone habsent
  | @occurrence before behind out hleftmost h =>
    refine .occurrence (c :: before) (fun front back hsplit => ?_) h
    cases front with
    | nil => exact absurd ⟨back, hsplit.symm⟩ hnone
    | cons d front => exact Nat.succ_le_succ (hleftmost front back (List.cons.inj hsplit).2)

lemma replaced_replaceAll (p : Char) (ps replacement text : List Char) :
    Replaced (p :: ps) replacement text (replaceAll p ps replacement text) := by
  induction text using replaceAll.induct p ps with
  | case1 =>
    rw [replaceAll_nil]
    exact .absent (by simp)
  | case2 c cs rest hafter ih =>
    rw [after?_eq_some_iff.1 hafter, replaceAll_append]
    exact .occurrence [] (fun _ _ _ => Nat.zero_le _) ih
  | case3 c cs hafter ih =>
    rw [replaceAll_cons_of_not_occurs replacement hafter]
    refine ih.cons fun ⟨rest, hrest⟩ => ?_
    rw [after?_eq_some_iff.2 hrest.symm] at hafter
    exact absurd hafter (by simp)

/-- There is one way to replace a pattern: the first occurrence is where it is. -/
lemma Replaced.unique (h : Replaced pattern replacement text out)
    (h' : Replaced pattern replacement text out') : out' = out := by
  induction h generalizing out' with
  | absent habsent =>
    cases h' with
    | absent => rfl
    | @occurrence before behind out => exact absurd ⟨before, behind, by simp⟩ habsent
  | @occurrence before behind out hleftmost h ih =>
    generalize htext : before ++ (pattern ++ behind) = text at h'
    cases h' with
    | absent habsent => exact absurd ⟨before, behind, by simp [← htext]⟩ habsent
    | @occurrence before' behind' out' hleftmost' h' =>
      have hlength : before.length = before'.length :=
        Nat.le_antisymm (hleftmost before' behind' htext) (hleftmost' before behind htext.symm)
      obtain ⟨rfl, hbehind⟩ := List.append_inj htext hlength
      obtain rfl := List.append_cancel_left hbehind
      rw [ih h']

theorem replaced_iff {pattern replacement text out : String} (hpattern : pattern ≠ "") :
    Replaced pattern.toList replacement.toList text.toList out.toList ↔
      out = replace pattern replacement text := by
  obtain ⟨p, ps, hps⟩ := List.exists_cons_of_ne_nil fun hnil =>
    hpattern (String.toList_eq_nil_iff.1 hnil)
  have hreplace : (replace pattern replacement text).toList =
      replaceAll p ps replacement.toList text.toList := by
    simp [replace, hps]
  rw [← String.toList_inj, hreplace, hps]
  constructor
  · exact (replaced_replaceAll p ps _ _).unique
  · rintro h
    rw [h]
    exact replaced_replaceAll p ps _ _

end Bindery.Text
