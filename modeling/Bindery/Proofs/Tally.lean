import Bindery.Proofs.Sweep
import Mathlib.Algebra.BigOperators.Group.Finset.Basic
import Mathlib.Algebra.Order.BigOperators.Group.Finset

/-!
# Counting what happens to declarations

A pass counts its changes as it goes.  `Tree.tally` looks at the trees before and after instead, and
adds up what happened to each declaration on the way.

Both numbers are the same for a sweep if each of its steps changes only declarations of its own and
counts rightly what happens to them (`Progress.CountsOwn.changes_sweep`): no change is undone or
counted twice by a later step, so the tally of the whole way is that of its parts
(`Tree.tally_add`).  Mostly a step is run for the one declaration that it changes
(`Progress.changes_sweep_of_own`).
-/

namespace Bindery

open Finset

namespace Tree

variable {happened : Decl → Decl → Nat} {t u v : Tree} {id : Nat}

/-- How often something happened to declarations of `t` on the way to `u`. -/
def tally (happened : Decl → Decl → Nat) (t u : Tree) : Nat :=
  ∑ id ∈ range t.size, happened (t.decl id) (u.decl id)

lemma tally_eq_zero_iff :
    t.tally happened u = 0 ↔ ∀ id < t.size, happened (t.decl id) (u.decl id) = 0 := by
  simp only [tally, sum_eq_zero_iff, mem_range]

lemma tally_self (hself : ∀ d, happened d d = 0) (t : Tree) : t.tally happened t = 0 :=
  tally_eq_zero_iff.2 fun _ _ => hself _

/-- Where only one declaration has changed, its change is all that happened. -/
lemma tally_eq_single (hself : ∀ d, happened d d = 0) (hid : id < t.size)
    (hsame : ∀ i < t.size, id ≠ i → u.decl i = t.decl i) :
    t.tally happened u = happened (t.decl id) (u.decl id) := by
  refine sum_eq_single_of_mem id (mem_range.2 hid) fun i hi hne => ?_
  rw [hsame i (mem_range.1 hi) hne.symm, hself]

/-- What happened on the way is what happened on its parts, if no declaration changed on both. -/
theorem tally_add (hself : ∀ d, happened d d = 0) (hsize : t.size ≤ u.size)
    (hnew : ∀ i, t.size ≤ i → i < u.size → v.decl i = u.decl i)
    (hold : ∀ i < t.size, u.decl i = t.decl i ∨ v.decl i = u.decl i) :
    t.tally happened v = t.tally happened u + u.tally happened v := by
  have hrest : u.tally happened v =
      ∑ i ∈ range t.size, happened (u.decl i) (v.decl i) := by
    refine (sum_subset (range_subset_range.2 hsize) fun i hi hnot => ?_).symm
    rw [hnew i (by simpa using hnot) (mem_range.1 hi), hself]
  rw [hrest, tally, tally, ← sum_add_distrib]
  refine sum_congr rfl fun i hi => ?_
  rcases hold i (mem_range.1 hi) with h | h
  · rw [h, hself, Nat.zero_add]
  · rw [h, hself, Nat.add_zero]

lemma tally_add_of_size_eq (hself : ∀ d, happened d d = 0) (hsize : u.size = t.size)
    (hold : ∀ i < t.size, u.decl i = t.decl i ∨ v.decl i = u.decl i) :
    t.tally happened v = t.tally happened u + u.tally happened v :=
  tally_add hself hsize.ge (fun i hi hlt => absurd hlt (by omega)) hold

end Tree

namespace Progress

variable {happened : Decl → Decl → Nat} {owner : Nat → Option Nat} {ready : Tree → Nat → Prop}
variable {step : Tree → Nat → Progress} {ids : List Nat} {t : Tree}

/-- Each declaration belongs to one at most, its owner.  A step that is run for an owner changes
only what belongs to it, and counts what happens there; the owners that have been ready for the step
stay ready while it is run for others. -/
structure CountsOwn (happened : Decl → Decl → Nat) (owner : Nat → Option Nat)
    (ready : Tree → Nat → Prop) (step : Tree → Nat → Progress) : Prop where
  size_le : ∀ t id, t.size ≤ (step t id).tree.size
  lt_size : ∀ {t id i}, ready t id → owner i = some id → i < t.size
  same : ∀ {t id i}, ready t id → i < t.size → owner i ≠ some id →
    (step t id).tree.decl i = t.decl i
  ready_of : ∀ {t id other}, ready t id → ready t other → id ≠ other →
    ready (step t id).tree other
  changes_eq : ∀ {t id}, ready t id → (step t id).changes = t.tally happened (step t id).tree

namespace CountsOwn

variable (h : CountsOwn happened owner ready step)

include h

lemma ready_of_forall {id : Nat} (hid : id ∉ ids) (hready : ∀ i ∈ id :: ids, ready t i) :
    ∀ i ∈ ids, ready (step t id).tree i := by
  rw [List.forall_mem_cons] at hready
  refine fun i hi => h.ready_of hready.1 (hready.2 i hi) ?_
  rintro rfl
  exact hid hi

/-- What belongs to none of the owners is not changed. -/
lemma decl_sweep (hids : ids.Nodup) (hready : ∀ id ∈ ids, ready t id) {i : Nat} (hi : i < t.size)
    (howner : ∀ id ∈ ids, owner i ≠ some id) : (sweep step ids t).tree.decl i = t.decl i := by
  induction ids generalizing t with
  | nil => rfl
  | cons id ids ih =>
    obtain ⟨hid, hnodup⟩ := List.nodup_cons.1 hids
    have hnext := h.ready_of_forall hid hready
    rw [List.forall_mem_cons] at hready howner
    rw [sweep_cons, tree_andThen, ih hnodup hnext (Nat.lt_of_lt_of_le hi (h.size_le t id)) howner.2,
      h.same hready.1 hi howner.1]

/-- A sweep counts what happens between its first tree and its last. -/
theorem changes_sweep (hself : ∀ d, happened d d = 0) (hids : ids.Nodup)
    (hready : ∀ id ∈ ids, ready t id) :
    (sweep step ids t).changes = t.tally happened (sweep step ids t).tree := by
  induction ids generalizing t with
  | nil => exact (Tree.tally_self hself t).symm
  | cons id ids ih =>
    obtain ⟨hid, hnodup⟩ := List.nodup_cons.1 hids
    have hnext := h.ready_of_forall hid hready
    have hkept {i : Nat} (hi : i < (step t id).tree.size) (howner : ∀ j ∈ ids, owner i ≠ some j) :=
      h.decl_sweep hnodup hnext hi howner
    rw [List.forall_mem_cons] at hready
    rw [sweep_cons, changes_andThen, tree_andThen, ih hnodup hnext, h.changes_eq hready.1]
    refine (Tree.tally_add hself (h.size_le t id) (fun i hi hlt => ?_) fun i hi => ?_).symm
    · -- an addition belongs to nobody
      exact hkept hlt fun j hj howner => absurd (h.lt_size (hready.2 j hj) howner) (by omega)
    · by_cases howner : owner i = some id
      · refine .inr (hkept (Nat.lt_of_lt_of_le hi (h.size_le t id)) fun j hj heq => hid ?_)
        rw [howner, Option.some.injEq] at heq
        exact heq ▸ hj
      · exact .inl (h.same hready.1 hi howner)

end CountsOwn

/-- A sweep counts what happens if each step changes, of the declarations there are, only the one it
is run for, and counts rightly what happens to it.  `Q` says for which declarations it does. -/
theorem changes_sweep_of_own {Q : Decl → Prop} (hself : ∀ d, happened d d = 0)
    (hsize : ∀ t id, t.size ≤ (step t id).tree.size)
    (hsame : ∀ {t id i}, i < t.size → id ≠ i → (step t id).tree.decl i = t.decl i)
    (hchanges : ∀ {t id}, id < t.size → Q (t.decl id) →
      (step t id).changes = happened (t.decl id) ((step t id).tree.decl id))
    (hids : ids.Nodup) (hlt : ∀ id ∈ ids, id < t.size) (hready : ∀ id ∈ ids, Q (t.decl id)) :
    (sweep step ids t).changes = t.tally happened (sweep step ids t).tree := by
  have hown : CountsOwn happened some (fun t id => id < t.size ∧ Q (t.decl id)) step :=
    { size_le := hsize
      lt_size := by
        rintro t id i hready ⟨⟩
        exact hready.1
      same := fun _ hi howner => hsame hi fun heq => howner (congrArg some heq.symm)
      ready_of := fun {t id other} _ hother hne => by
        rw [hsame hother.1 hne]
        exact ⟨Nat.lt_of_lt_of_le hother.1 (hsize t id), hother.2⟩
      changes_eq := fun hready => by
        rw [Tree.tally_eq_single hself hready.1 fun i hi hne => hsame hi hne,
          hchanges hready.1 hready.2] }
  exact hown.changes_sweep hself hids fun id hid => ⟨hlt id hid, hready id hid⟩

/-- Where each step counts the declarations it adds, so does a sweep. -/
lemma size_sweep_eq_add (hstep : ∀ t id, (step t id).tree.size = t.size + (step t id).changes)
    (ids : List Nat) (t : Tree) :
    (sweep step ids t).tree.size = t.size + (sweep step ids t).changes := by
  induction ids generalizing t with
  | nil => rfl
  | cons id ids ih =>
    rw [sweep_cons, tree_andThen, changes_andThen, ih, hstep, Nat.add_assoc]

/-- A sweep that counts no change leaves the tree as it is, if its steps do. -/
lemma tree_of_changes_sweep
    (hstep : ∀ t id, (step t id).changes = 0 → (step t id).tree = t)
    (h : (sweep step ids t).changes = 0) : (sweep step ids t).tree = t := by
  have hchanges := changes_of_sweep hstep h
  exact (sweep_idle fun id hid => ⟨hstep t id (hchanges id hid), hchanges id hid⟩).1

end Progress

end Bindery
