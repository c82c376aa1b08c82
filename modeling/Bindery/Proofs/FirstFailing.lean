import Mathlib.Order.Bounds.Basic

/-!
# The first that fails a test

A list that is refused is refused for the first of its elements that fails a test.
`FirstFailing test list front a` says which one that is and what stands before it.  There is one
exactly if not all elements pass (`exists_firstFailing`, `FirstFailing.not_forall`), and the number
of those before it is its position (`FirstFailing.isLeast`).
-/

namespace Bindery

variable {α : Type} {test : α → Prop} {list front : List α} {a b : α}

/-- Of the elements of `list`, `a` is the first that fails the test, and `front` stands before it. -/
def FirstFailing (test : α → Prop) (list front : List α) (a : α) : Prop :=
  (∃ rest, list = front ++ a :: rest) ∧ (∀ b ∈ front, test b) ∧ ¬ test a

lemma not_firstFailing_nil : ¬ FirstFailing test [] front a := by
  rintro ⟨⟨rest, hsplit⟩, -, -⟩
  simp at hsplit

lemma FirstFailing.head (hb : ¬ test b) : FirstFailing test (b :: list) [] b :=
  ⟨⟨list, rfl⟩, by simp, hb⟩

lemma FirstFailing.cons (hb : test b) (h : FirstFailing test list front a) :
    FirstFailing test (b :: list) (b :: front) a := by
  obtain ⟨⟨rest, rfl⟩, hfront, ha⟩ := h
  exact ⟨⟨rest, rfl⟩, List.forall_mem_cons.2 ⟨hb, hfront⟩, ha⟩

/-- Either the head fails, or it passes and the first failure lies behind it. -/
lemma FirstFailing.cons_cases (h : FirstFailing test (b :: list) front a) :
    (front = [] ∧ a = b ∧ ¬ test b) ∨
      ∃ front', front = b :: front' ∧ test b ∧ FirstFailing test list front' a := by
  obtain ⟨⟨rest, hsplit⟩, hfront, ha⟩ := h
  cases front with
  | nil =>
    obtain ⟨rfl, -⟩ := List.cons.inj hsplit
    exact .inl ⟨rfl, rfl, ha⟩
  | cons first front =>
    obtain ⟨rfl, htail⟩ := List.cons.inj hsplit
    rw [List.forall_mem_cons] at hfront
    exact .inr ⟨front, rfl, hfront.1, ⟨rest, htail⟩, hfront.2, ha⟩

/-- Either the head fails, or it passes and the first that fails comes behind it. -/
lemma exists_firstFailing_cons_iff {P : List α → α → Prop} :
    (∃ front a, FirstFailing test (b :: list) front a ∧ P front a) ↔
      (¬ test b ∧ P [] b) ∨
        (test b ∧ ∃ front a, FirstFailing test list front a ∧ P (b :: front) a) := by
  constructor
  · rintro ⟨front, a, hfirst, hP⟩
    rcases hfirst.cons_cases with ⟨rfl, rfl, ha⟩ | ⟨front', rfl, hb, hrest⟩
    · exact .inl ⟨ha, hP⟩
    · exact .inr ⟨hb, front', a, hrest, hP⟩
  · rintro (⟨hb, hP⟩ | ⟨hb, front, a, hrest, hP⟩)
    · exact ⟨[], b, .head hb, hP⟩
    · exact ⟨b :: front, a, hrest.cons hb, hP⟩

/-- If not all pass there is a first that fails. -/
theorem exists_firstFailing (h : ¬ ∀ b ∈ list, test b) : ∃ front a, FirstFailing test list front a := by
  induction list with
  | nil => exact absurd (by simp) h
  | cons b list ih =>
    by_cases hb : test b
    · obtain ⟨front, a, hfirst⟩ := ih fun hlist => h (List.forall_mem_cons.2 ⟨hb, hlist⟩)
      exact ⟨b :: front, a, hfirst.cons hb⟩
    · exact ⟨[], b, .head hb⟩

theorem FirstFailing.not_forall (h : FirstFailing test list front a) : ¬ ∀ b ∈ list, test b := by
  obtain ⟨⟨rest, rfl⟩, -, ha⟩ := h
  exact fun hall => ha (hall a (by simp))

/-- The index of the first item that passes the opposite test is the number of items in front. -/
lemma findIdx?_eq_some_iff_firstFailing {p : α → Bool} {index : Nat} :
    list.findIdx? p = some index ↔
      ∃ front a, FirstFailing (fun a => ¬ p a = true) list front a ∧ index = front.length := by
  induction list generalizing index with
  | nil => simp [not_firstFailing_nil]
  | cons b list ih =>
    rw [List.findIdx?_cons, exists_firstFailing_cons_iff]
    by_cases hb : p b = true
    · rw [if_pos hb, Option.some.injEq]
      constructor
      · exact fun h => .inl ⟨not_not.2 hb, h.symm⟩
      · rintro (⟨-, rfl⟩ | ⟨hnot, -⟩)
        · rfl
        · exact absurd hb hnot
    · rw [if_neg hb, Option.map_eq_some_iff]
      simp only [ih]
      constructor
      · rintro ⟨_, ⟨front, a, hfirst, rfl⟩, rfl⟩
        exact .inr ⟨hb, front, a, hfirst, rfl⟩
      · rintro (⟨hnot, -⟩ | ⟨-, front, a, hfirst, rfl⟩)
        · exact absurd hb hnot
        · exact ⟨front.length, ⟨front, a, hfirst, rfl⟩, rfl⟩

/-- The first that fails stands at the least position of any that does. -/
theorem FirstFailing.isLeast (h : FirstFailing test list front a) :
    IsLeast {i | ∃ b, list[i]? = some b ∧ ¬ test b} front.length := by
  obtain ⟨⟨rest, rfl⟩, hfront, ha⟩ := h
  refine ⟨⟨a, by simp, ha⟩, ?_⟩
  rintro i ⟨b, hi, hb⟩
  by_contra hlt
  rw [List.getElem?_append_left (by omega)] at hi
  exact hb (hfront b (List.mem_of_getElem? hi))

end Bindery
