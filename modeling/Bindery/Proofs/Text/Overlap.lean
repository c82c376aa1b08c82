import Bindery.Proofs.Text.Replace

/-!
# Replacements that keep apart from what is looked for

`KeepsApart search replacement` says that neither of two texts occurs in the other and that no end
of the first is a beginning of the second, nor a beginning of the first an end of the second.  Then
an occurrence of `search` meets no place where `replacement` has been put in: wherever it lies, it
lies beside (`KeepsApart.infix_append`).

So replacing brings up no new occurrences (`Replaced.infix_of_infix`), and it leaves none of what it
replaces (`Replaced.not_infix`): what stands between two replacements has been searched already.
-/

namespace Bindery.Text

variable {pattern replacement search text out before behind : List Char}

/-- Neither text occurs in the other, and they do not overlap. -/
structure KeepsApart (search replacement : List Char) : Prop where
  search_not_infix : ¬ search <:+: replacement
  replacement_not_infix : ¬ replacement <:+: search
  end_not_beginning : ∀ part, part <:+ search → part ≠ [] → part ≠ search → ¬ part <+: replacement
  beginning_not_end : ∀ part, part <+: search → part ≠ [] → part ≠ search → ¬ part <:+ replacement

lemma keepsApart_iff : KeepsApart search replacement ↔
    ¬ search <:+: replacement ∧ ¬ replacement <:+: search ∧
      (∀ part ∈ search.tails, part ≠ [] → part ≠ search → ¬ part <+: replacement) ∧
      ∀ part ∈ search.inits, part ≠ [] → part ≠ search → ¬ part <:+ replacement := by
  simp only [List.mem_tails, List.mem_inits]
  exact ⟨fun h => ⟨h.1, h.2, h.3, h.4⟩, fun h => ⟨h.1, h.2.1, h.2.2.1, h.2.2.2⟩⟩

instance : Decidable (KeepsApart search replacement) := decidable_of_iff _ keepsApart_iff.symm

namespace KeepsApart

variable (h : KeepsApart search replacement)

include h

lemma eq_nil_of_suffix {part : List Char} (hend : part <:+ search)
    (hbeginning : part <+: replacement) : part = [] := by
  by_contra hpart
  refine h.end_not_beginning part hend hpart (fun hwhole => ?_) hbeginning
  exact h.search_not_infix (hwhole ▸ hbeginning.isInfix)

lemma eq_nil_of_prefix {part : List Char} (hbeginning : part <+: search)
    (hend : part <:+ replacement) : part = [] := by
  by_contra hpart
  refine h.beginning_not_end part hbeginning hpart (fun hwhole => ?_) hend
  exact h.search_not_infix (hwhole ▸ hend.isInfix)

/-- What begins with the replacement does not begin within an occurrence. -/
lemma not_begins_within {front back rest : List Char} (hsplit : search = front ++ back)
    (hback : back ≠ []) : back ++ rest ≠ replacement ++ behind := by
  intro heq
  have hend : back <:+ search := ⟨front, hsplit.symm⟩
  rcases List.append_eq_append_iff.1 heq with ⟨part, hreplacement, -⟩ | ⟨part, rfl, -⟩
  · exact hback (h.eq_nil_of_suffix hend ⟨part, hreplacement.symm⟩)
  · exact h.replacement_not_infix ((List.prefix_append _ _).isInfix.trans hend.isInfix)

/-- An occurrence does not begin within the replacement. -/
lemma not_occurs_within {front back rest : List Char} (hsplit : replacement = front ++ back)
    (hback : back ≠ []) : back ++ behind ≠ search ++ rest := by
  intro heq
  have hend : back <:+ replacement := ⟨front, hsplit.symm⟩
  rcases List.append_eq_append_iff.1 heq with ⟨part, hsearch, -⟩ | ⟨part, rfl, -⟩
  · exact hback (h.eq_nil_of_prefix ⟨part, hsearch.symm⟩ hend)
  · exact h.search_not_infix ((List.prefix_append _ _).isInfix.trans hend.isInfix)

/-- An occurrence in a text with the replacement in it lies before the replacement or behind. -/
theorem infix_append (hoccurs : search <:+: before ++ (replacement ++ behind)) :
    search <:+: before ∨ search <:+: behind := by
  obtain ⟨front, rest, heq⟩ := hoccurs
  rw [List.append_assoc] at heq
  rcases List.append_eq_append_iff.1 heq with ⟨gap, rfl, hrest⟩ | ⟨gap, rfl, hrest⟩
  · -- the occurrence begins before the replacement, and so it ends there
    left
    rcases List.append_eq_append_iff.1 hrest with ⟨part, rfl, -⟩ | ⟨part, hsplit, hpart⟩
    · exact ⟨front, part, by simp⟩
    · by_cases hnil : part = []
      · rw [hsplit, hnil, List.append_nil]
        exact ⟨front, [], by simp⟩
      · exact absurd hpart.symm (h.not_begins_within hsplit hnil)
  · right
    rcases List.append_eq_append_iff.1 hrest with ⟨part, rfl, hpart⟩ | ⟨part, hsplit, hpart⟩
    · exact ⟨part, rest, by rw [hpart, List.append_assoc]⟩
    · by_cases hnil : part = []
      · rw [hnil, List.nil_append] at hpart
        exact ⟨[], rest, by rw [← hpart, List.nil_append]⟩
      · exact absurd hpart.symm (h.not_occurs_within hsplit hnil)

end KeepsApart

namespace Replaced

/-- Replacing brings up nothing that keeps apart from the replacement. -/
theorem infix_of_infix (h : Replaced pattern replacement text out)
    (hsearch : KeepsApart search replacement) (hoccurs : search <:+: out) : search <:+: text := by
  induction h with
  | absent => exact hoccurs
  | @occurrence before behind out _ _ ih =>
    rcases hsearch.infix_append hoccurs with hbefore | hout
    · exact hbefore.trans (List.prefix_append _ _).isInfix
    · have hbehind : behind <:+ before ++ (pattern ++ behind) :=
        (List.suffix_append _ _).trans (List.suffix_append _ _)
      exact (ih hout).trans hbehind.isInfix

/-- A pattern that keeps apart from its replacement is gone when it has been replaced. -/
theorem not_infix (h : Replaced pattern replacement text out) (hpattern : pattern ≠ [])
    (hapart : KeepsApart pattern replacement) : ¬ pattern <:+: out := by
  induction h with
  | absent habsent => exact habsent
  | @occurrence before behind out hleftmost _ ih =>
    intro hoccurs
    rcases hapart.infix_append hoccurs with ⟨front, back, rfl⟩ | hout
    · -- the pattern would have been found earlier
      have hle := hleftmost front (back ++ (pattern ++ behind)) (by simp)
      have hpos := List.length_pos_of_ne_nil hpattern
      simp only [List.length_append] at hle
      omega
    · exact ih hout

/-- Where the pattern does not occur nothing is replaced. -/
lemma eq_of_not_infix (h : Replaced pattern replacement text out)
    (habsent : ¬ pattern <:+: text) : out = text := by
  cases h with
  | absent => rfl
  | occurrence before => exact absurd ⟨before, _, List.append_assoc _ _ _⟩ habsent

end Replaced

end Bindery.Text
