import Mathlib.Computability.StateTransition

/-!
# Loops

The body of a loop is a function that takes a state to the next one, or to none where the loop ends.
`StateTransition.eval body start` is the state in which a loop ends that starts at `start`; it has
no value if the loop goes on for ever.

A loop that is meant to look at one thing after another `Visits` those that are current in one of
its states.  What it visits can be read off step by step (`visits_of_some`, `visits_of_none`).
-/

namespace Bindery.Loop

open StateTransition

variable {σ α : Type} {body : σ → Option σ} {current : σ → Option α} {s s' : σ} {x : α}

lemma eval_of_none (h : body s = none) : eval body s = .some s :=
  Part.eq_some_iff.2 (mem_eval.2 ⟨.refl, h⟩)

lemma eval_of_some (h : body s = some s') : eval body s = eval body s' :=
  reaches_eval (Relation.ReflTransGen.single h)

/-- In one of the states that the loop goes through from `s` on, `x` is current. -/
def Visits (body : σ → Option σ) (current : σ → Option α) (s : σ) (x : α) : Prop :=
  ∃ s', Reaches body s s' ∧ current s' = some x

theorem visits_of_none (h : body s = none) : Visits body current s x ↔ current s = some x := by
  constructor
  · rintro ⟨s', hreaches, hx⟩
    cases Relation.ReflTransGen.cases_head hreaches with
    | inl hsame => rwa [hsame]
    | inr hstep =>
      obtain ⟨next, hnext, -⟩ := hstep
      rw [h] at hnext
      exact absurd hnext (by simp)
  · intro hx
    exact ⟨s, .refl, hx⟩

theorem visits_of_some (h : body s = some s') :
    Visits body current s x ↔ current s = some x ∨ Visits body current s' x := by
  constructor
  · rintro ⟨later, hreaches, hx⟩
    cases Relation.ReflTransGen.cases_head hreaches with
    | inl hsame => exact .inl (hsame ▸ hx)
    | inr hstep =>
      obtain ⟨next, hnext, hrest⟩ := hstep
      obtain rfl : s' = next := Option.some.inj (h.symm.trans hnext)
      exact .inr ⟨later, hrest, hx⟩
  · rintro (hx | ⟨later, hrest, hx⟩)
    · exact ⟨s, .refl, hx⟩
    · exact ⟨later, hrest.head h, hx⟩

end Bindery.Loop
