import Bindery.Text.UpperCase
import Mathlib.Data.List.Nodup

/-!
# Upper case is reached in one step

The upper-case form of a character is the character itself, or it does not contain the character and
begins with one that is its own upper-case form (`upperChar_cases`).  So the first character of a
text need not be changed twice (`upperFirst_upperFirst`), and what is written behind the text makes
no difference to that (`upperFirst_append`).

The table is checked as a whole.  The characters that have an upper-case form and those that such a
form begins with are turned into two numbers, one bit a character, that have no bit in common
(`land_bitsOf_forms`).
-/

namespace Bindery.Text

namespace UpperCase

/-! ## Sets of numbers as bits -/

/-- The number whose bits are the members of a list. -/
def bitsOf (codes : List Nat) : Nat := codes.foldr (fun code bits => 1 <<< code ||| bits) 0

/-- Each code of the list sets its bit. -/
lemma testBit_bitsOf {codes : List Nat} {code : Nat} (h : code ∈ codes) :
    (bitsOf codes).testBit code = true := by
  induction codes with
  | nil => simp at h
  | cons first codes ih =>
    rw [bitsOf, List.foldr_cons, Nat.testBit_or, ← bitsOf]
    rcases List.mem_cons.1 h with rfl | h
    · simp [Nat.testBit_shiftLeft]
    · rw [ih h, Bool.or_true]

/-- Lists whose bits do not meet have nothing in common. -/
lemma not_mem_of_land_bitsOf {a b : List Nat} (h : bitsOf a &&& bitsOf b = 0) {code : Nat}
    (ha : code ∈ a) : code ∉ b := by
  intro hb
  have hbit : (bitsOf a &&& bitsOf b).testBit code = true := by
    rw [Nat.testBit_and, testBit_bitsOf ha, testBit_bitsOf hb, Bool.and_self]
  rw [h, Nat.zero_testBit] at hbit
  exact absurd hbit (by simp)

/-! ## The table, character by character -/

/-- The characters that a run covers, each with its upper-case form. -/
def CaseRun.forms (run : CaseRun) : List (Nat × List Nat) :=
  (List.range ((run.last - run.first) / run.step + 1)).map fun k =>
    (run.first + run.step * k, [run.image + run.step * k])

lemma CaseRun.mem_forms {run : CaseRun} {code image : Nat} (h : run.map? code = some image) :
    (code, [image]) ∈ run.forms := by
  unfold map? at h
  split at h
  · next hcovers =>
    obtain ⟨hfirst, hlast, hstep⟩ := hcovers
    have hmul : run.step * ((code - run.first) / run.step) = code - run.first :=
      Nat.mul_div_cancel' (Nat.dvd_of_mod_eq_zero hstep)
    have himage := Option.some.inj h
    refine List.mem_map.2 ⟨(code - run.first) / run.step, List.mem_range.2 ?_, ?_⟩
    · exact Nat.lt_succ_of_le (Nat.div_le_div_right (by omega))
    · rw [hmul, himage, Nat.add_sub_cancel' hfirst]
  · simp at h

/-- All characters that have an upper-case form, each with its form. -/
def forms : List (Nat × List Nat) := longForms ++ caseRuns.flatMap CaseRun.forms

/-- No character that has an upper-case form begins one. -/
theorem land_bitsOf_forms :
    bitsOf (forms.map (·.1)) &&& bitsOf (forms.map (·.2.headD 0)) = 0 := by decide +kernel

/-- Every upper-case form is a text of characters, none of which is the character itself. -/
lemma forms_wellFormed : ∀ form ∈ forms,
    form.2 ≠ [] ∧ ∀ code ∈ form.2, code.isValidChar ∧ code ≠ form.1 := by decide +kernel

end UpperCase

open UpperCase

/-! ## Characters -/

lemma upperChar_eq_or (c : Char) :
    upperChar c = [c] ∨ ∃ codes, (c.toNat, codes) ∈ forms ∧ upperChar c = codes.map Char.ofNat := by
  unfold upperChar
  split
  · next codes hlong =>
    obtain ⟨front, rest, htable, -⟩ := List.lookup_eq_some_iff.1 hlong
    have hmem : (c.toNat, codes) ∈ longForms := by
      rw [htable]
      exact List.mem_append_right _ List.mem_cons_self
    exact .inr ⟨codes, List.mem_append_left _ hmem, rfl⟩
  · split
    · next code hrun =>
      obtain ⟨run, hmem, hcode⟩ := List.exists_of_findSome?_eq_some hrun
      have hforms := List.mem_flatMap.2 ⟨run, hmem, run.mem_forms hcode⟩
      exact .inr ⟨[code], List.mem_append_right _ hforms, rfl⟩
    · exact .inl rfl

/-- Characters that begin an upper-case form are their own. -/
lemma upperChar_of_mem_heads {c : Char} (h : c.toNat ∈ forms.map (·.2.headD 0)) :
    upperChar c = [c] := by
  rcases upperChar_eq_or c with hself | ⟨codes, hform, -⟩
  · exact hself
  · exact absurd h (not_mem_of_land_bitsOf land_bitsOf_forms (List.mem_map_of_mem hform))

lemma toNat_ofNat {code : Nat} (h : code.isValidChar) : (Char.ofNat code).toNat = code := by
  rw [Char.ofNat, dif_pos h]
  rfl

theorem upperChar_cases (c : Char) :
    upperChar c = [c] ∨
      c ∉ upperChar c ∧ ∃ first rest, upperChar c = first :: rest ∧ upperChar first = [first] := by
  rcases upperChar_eq_or c with hself | ⟨codes, hform, hupper⟩
  · exact .inl hself
  · obtain ⟨hne, hcodes⟩ := forms_wellFormed _ hform
    refine .inr ⟨fun hmem => ?_, ?_⟩
    · rw [hupper] at hmem
      obtain ⟨code, hcode, rfl⟩ := List.mem_map.1 hmem
      exact (hcodes code hcode).2 (toNat_ofNat (hcodes code hcode).1).symm
    · obtain ⟨first, rest, rfl⟩ := List.exists_cons_of_ne_nil hne
      refine ⟨Char.ofNat first, rest.map Char.ofNat, hupper, upperChar_of_mem_heads ?_⟩
      rw [toNat_ofNat (hcodes first List.mem_cons_self).1]
      exact List.mem_map.2 ⟨_, hform, rfl⟩

lemma upperChar_underscore : upperChar '_' = ['_'] := by decide +kernel

/-! ## Texts -/

/-- A text begins with a capital already if its first character has no other upper-case form. -/
lemma upperFirst_eq_self_iff {text : String} :
    upperFirst text = text ↔ ∀ c ∈ text.toList.head?, upperChar c = [c] := by
  cases htext : text.toList with
  | nil => simp [upperFirst, htext]
  | cons c cs =>
    rw [← String.toList_inj, toList_upperFirst_cons htext, htext]
    simp only [List.head?_cons, Option.mem_some_iff, forall_eq']
    rw [← List.singleton_append, List.append_cancel_right_eq]

/-- Making the first letter a capital twice is the same as doing it once. -/
theorem upperFirst_upperFirst (text : String) : upperFirst (upperFirst text) = upperFirst text := by
  rw [upperFirst_eq_self_iff]
  cases htext : text.toList with
  | nil => simp [upperFirst, htext]
  | cons c cs =>
    rw [toList_upperFirst_cons htext]
    rcases upperChar_cases c with hself | ⟨-, first, rest, hupper, hfirst⟩
    · simp [hself]
    · simpa [hupper] using hfirst

/-- A capital text stays one with an underscore and more behind it. -/
theorem upperFirst_append {text : String} (h : upperFirst text = text) (rest : String) :
    upperFirst (text ++ "_" ++ rest) = text ++ "_" ++ rest := by
  rw [upperFirst_eq_self_iff] at h ⊢
  cases htext : text.toList with
  | nil => simp [htext, upperChar_underscore]
  | cons c cs => simpa [htext] using h

end Bindery.Text
