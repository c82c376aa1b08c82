import Bindery.Proofs.Sweep
import Bindery.Proofs.Tree.Renumbering

/-!
# Changes that agree

Two changes agree if they lead to renumbered trees and say the same about it: the number of changes,
or the reason why they failed.  What is logged may differ, since a message may list declarations in
the order of insertion.

Changes made of agreeing parts agree (`Progress.Agrees.andThen`, `Outcome.Agrees.andThen`), and so
do sweeps over corresponding declarations (`Progress.Agrees.sweep`).  Where the declarations come in
another order, it matters that the step is an edit of the declaration that looks at nothing else:
such steps can be done in any order (`Progress.Agrees.sweep_perm`).
-/

namespace Bindery

open Equiv (Perm)
open Bindery.Tree (Renumbered)

variable {σ : Perm Nat} {t u : Tree}

namespace Progress

/-- Two changes that lead to renumbered trees, with as many changes. -/
structure Agrees (σ : Perm Nat) (p q : Progress) : Prop where
  trees : Renumbered σ p.tree q.tree
  changes_eq : q.changes = p.changes

lemma agrees_unchanged (h : Renumbered σ t u) : Agrees σ (unchanged t) (unchanged u) := ⟨h, rfl⟩

/-- The same edit at corresponding places, whatever is said about it. -/
lemma agrees_edited (h : Renumbered σ t u) (id : Nat) (edit : Edit) (log log' : Log) :
    Agrees σ (edited t id edit log) (edited u (σ id) edit log') := ⟨h.edit id edit, rfl⟩

theorem Agrees.andThen {p q : Progress} {next next' : Tree → Progress} (hpq : Agrees σ p q)
    (hnext : Agrees σ (next p.tree) (next' q.tree)) :
    Agrees σ (p.andThen next) (q.andThen next') :=
  ⟨hnext.trees, by rw [changes_andThen, changes_andThen, hpq.changes_eq, hnext.changes_eq]⟩

/-- Steps that agree make up sweeps that agree, as the numbers are renumbered on the way. -/
theorem Agrees.sweep {step : Tree → Nat → Progress}
    (hstep : ∀ {t u : Tree}, Renumbered σ t u → ∀ id, Agrees σ (step t id) (step u (σ id)))
    (h : Renumbered σ t u) (ids : List Nat) :
    Agrees σ (Progress.sweep step ids t) (Progress.sweep step (ids.map σ) u) := by
  induction ids generalizing t u with
  | nil => exact agrees_unchanged h
  | cons id ids ih => exact (hstep h id).andThen (ih (hstep h id).trees)

/-! ## Steps in any order -/

section Order

variable {step : Tree → Nat → Progress} (done : Decl → Prop) [DecidablePred done] (edit : Edit)

/-- The same edit can be made at two places in either order. -/
lemma edit_comm (t : Tree) (i j : Nat) :
    (t.edit i edit).edit j edit = (t.edit j edit).edit i edit := by
  refine Tree.ext_reads (by simp) (fun id _ => by simp) fun id _ => ?_
  by_cases hi : i = id <;> by_cases hj : j = id <;> simp [Tree.decl_edit, hi, hj]

lemma sweep_swap
    (hstep : ∀ t id, step t id = if done (t.decl id) then unchanged t else edited t id edit [])
    (i j : Nat) (ids : List Nat) (t : Tree) :
    Progress.sweep step (i :: j :: ids) t = Progress.sweep step (j :: i :: ids) t := by
  by_cases hij : i = j
  · rw [hij]
  · -- neither step sees what the other one does
    have hi : (t.edit j edit).decl i = t.decl i := by
      rw [Tree.decl_edit, if_neg fun h => hij h.1.symm]
    have hj : (t.edit i edit).decl j = t.decl j := by
      rw [Tree.decl_edit, if_neg fun h => hij h.1]
    by_cases hdonei : done (t.decl i) <;> by_cases hdonej : done (t.decl j) <;>
      simp [hstep, andThen, unchanged, edited, hi, hj, hdonei, hdonej, edit_comm edit t i j]

/-- An edit that depends on the declaration alone can be made of several declarations in any
order. -/
theorem sweep_perm
    (hstep : ∀ t id, step t id = if done (t.decl id) then unchanged t else edited t id edit [])
    {ids ids' : List Nat} (h : ids.Perm ids') (t : Tree) :
    Progress.sweep step ids t = Progress.sweep step ids' t := by
  induction h generalizing t with
  | nil => rfl
  | cons id _ ih => rw [sweep_cons, sweep_cons, Progress.andThen, Progress.andThen, ih]
  | swap i j ids => exact sweep_swap done edit hstep j i ids t
  | trans _ _ ih ih' => rw [ih, ih']

/-- Whether there is something to do for a declaration is told from the declaration. -/
lemma agrees_of_edit
    (hstep : ∀ t id, step t id = if done (t.decl id) then unchanged t else edited t id edit [])
    (h : Renumbered σ t u) (id : Nat) : Agrees σ (step t id) (step u (σ id)) := by
  rw [hstep, hstep, h.decl_eq]
  split
  · exact agrees_unchanged h
  · exact agrees_edited h id edit _ _

/-- A sweep whose steps are the same edit may take them in any order. -/
theorem Agrees.sweep_perm
    (hstep : ∀ t id, step t id = if done (t.decl id) then unchanged t else edited t id edit [])
    (h : Renumbered σ t u) {ids ids' : List Nat} (hids : ids'.Perm (ids.map σ)) :
    Agrees σ (Progress.sweep step ids t) (Progress.sweep step ids' u) := by
  rw [Progress.sweep_perm done edit hstep hids]
  exact .sweep (agrees_of_edit done edit hstep) h ids

end Order

end Progress

namespace Outcome

variable {ε δ : Type}

/-- Two changes that lead to renumbered trees, with as many changes or the same failure. -/
structure Agrees (σ : Perm Nat) (o p : Outcome ε) : Prop where
  trees : Renumbered σ o.tree p.tree
  result_eq : p.result = o.result

lemma agrees_unchanged (h : Renumbered σ t u) :
    Agrees σ (unchanged t : Outcome ε) (unchanged u) := ⟨h, rfl⟩

lemma agrees_fail (h : Renumbered σ t u) (e : ε) : Agrees σ (fail t e) (fail u e) := ⟨h, rfl⟩

lemma agrees_ofProgress {p q : Progress} (h : Progress.Agrees σ p q) :
    Agrees σ (ofProgress p : Outcome ε) (ofProgress q) :=
  ⟨h.trees, congrArg Except.ok h.changes_eq⟩

theorem Agrees.andThen {o p : Outcome ε} {next next' : Tree → Outcome ε} (hop : Agrees σ o p)
    (hnext : Agrees σ (next o.tree) (next' p.tree)) :
    Agrees σ (o.andThen next) (p.andThen next') := by
  cases hresult : o.result with
  | error e =>
    rwa [andThen_of_error hresult, andThen_of_error (hop.result_eq.trans hresult)]
  | ok n =>
    rw [andThen_of_ok hresult, andThen_of_ok (hop.result_eq.trans hresult)]
    exact ⟨hnext.trees, congrArg (Except.map (n + ·)) hnext.result_eq⟩

theorem Agrees.sweep {step : Tree → Nat → Outcome ε}
    (hstep : ∀ {t u : Tree}, Renumbered σ t u → ∀ id, Agrees σ (step t id) (step u (σ id)))
    (h : Renumbered σ t u) (ids : List Nat) :
    Agrees σ (Outcome.sweep step ids t) (Outcome.sweep step (ids.map σ) u) := by
  induction ids generalizing t u with
  | nil => exact agrees_unchanged h
  | cons id ids ih => exact (hstep h id).andThen (ih (hstep h id).trees)

lemma Agrees.mapError {o p : Outcome ε} (h : Agrees σ o p) (f : ε → δ) :
    Agrees σ (o.mapError f) (p.mapError f) :=
  ⟨h.trees, congrArg (Except.mapError f) h.result_eq⟩

/-- Messages are not compared, so they may be added on both sides. -/
lemma Agrees.logging {o p : Outcome ε} (h : Agrees σ o p) (messages messages' : Nat → Log) :
    Agrees σ (o.logging messages) (p.logging messages') :=
  ⟨by rw [tree_logging, tree_logging]; exact h.trees,
    by rw [result_logging, result_logging]; exact h.result_eq⟩

end Outcome

end Bindery
