import Mathlib.Data.Set.BooleanAlgebra
import Mathlib.Order.CompletePartialOrder
import Bindery.Proofs.Tree.Alike

/-!
# What a stage looks at

The footprint of a stage is what it looks at and what it changes, as regions of fields.  A stage with
a footprint finds in alike trees the same things to do (`HasFootprint.alike`) and leaves alone
whatever is not in the region that it changes (`HasFootprint.keeps`).

Two stages of which neither looks at what the other changes can be done in either order: the tree is
the same, and each of them gives the result that it would give alone (`HasFootprint.commute`).
-/

namespace Bindery

variable {origin t u : Tree} {region : Region} {ε : Type}

/-! ## Doing the same to alike trees -/

/-- Alike trees have been reached, with the same number of changes. -/
structure Progress.Alike (origin : Tree) (region : Region) (p q : Progress) : Prop where
  tree : origin.Alike region p.tree q.tree
  changes_eq : q.changes = p.changes

/-- Alike trees have been reached, with the same result. -/
structure Outcome.Alike (origin : Tree) (region : Region) (o o' : Outcome ε) : Prop where
  tree : origin.Alike region o.tree o'.tree
  result_eq : o'.result = o.result

namespace Progress.Alike

lemma unchanged (h : origin.Alike region t u) :
    Progress.Alike origin region (.unchanged t) (.unchanged u) := ⟨h, rfl⟩

lemma edited (h : origin.Alike region t u) {id : Nat} {edit : Edit}
    (hfits : edit.Fits (t.decl id)) (log log' : Log) :
    Progress.Alike origin region (.edited t id edit log) (.edited u id edit log') :=
  ⟨h.edit hfits, rfl⟩

lemma andThen {p q : Progress} {next next' : Tree → Progress}
    (h : Progress.Alike origin region p q)
    (hnext : Progress.Alike origin region (next p.tree) (next' q.tree)) :
    Progress.Alike origin region (p.andThen next) (q.andThen next') :=
  ⟨hnext.tree, by simp [h.changes_eq, hnext.changes_eq]⟩

lemma sweep {step : Tree → Nat → Progress} {ids : List Nat}
    (hstep : ∀ id ∈ ids, ∀ t u, origin.Alike region t u →
      Progress.Alike origin region (step t id) (step u id))
    (h : origin.Alike region t u) :
    Progress.Alike origin region (Progress.sweep step ids t) (Progress.sweep step ids u) := by
  induction ids generalizing t u with
  | nil => exact unchanged h
  | cons id ids ih =>
    have hfirst := hstep id List.mem_cons_self t u h
    exact hfirst.andThen (ih (fun i hi => hstep i (List.mem_cons_of_mem _ hi)) hfirst.tree)

lemma outcome {p q : Progress} (h : Progress.Alike origin region p q) :
    Outcome.Alike origin region (.ofProgress p : Outcome ε) (.ofProgress q) :=
  ⟨h.tree, congrArg Except.ok h.changes_eq⟩

end Progress.Alike

namespace Outcome.Alike

lemma andThen {o o' : Outcome ε} {next next' : Tree → Outcome ε}
    (h : Outcome.Alike origin region o o')
    (hnext : Outcome.Alike origin region (next o.tree) (next' o'.tree)) :
    Outcome.Alike origin region (o.andThen next) (o'.andThen next') := by
  have hresult := h.result_eq
  cases ho : o.result with
  | error e =>
    rw [ho] at hresult
    rw [andThen_of_error ho, andThen_of_error hresult]
    exact h
  | ok n =>
    rw [ho] at hresult
    rw [andThen_of_ok ho, andThen_of_ok hresult]
    exact ⟨hnext.tree, by rw [hnext.result_eq]⟩

lemma sweep {step : Tree → Nat → Outcome ε} {ids : List Nat}
    (hstep : ∀ id ∈ ids, ∀ t u, origin.Alike region t u →
      Outcome.Alike origin region (step t id) (step u id))
    (h : origin.Alike region t u) :
    Outcome.Alike origin region (Outcome.sweep step ids t) (Outcome.sweep step ids u) := by
  induction ids generalizing t u with
  | nil => exact ⟨h, rfl⟩
  | cons id ids ih =>
    have hfirst := hstep id List.mem_cons_self t u h
    exact hfirst.andThen (ih (fun i hi => hstep i (List.mem_cons_of_mem _ hi)) hfirst.tree)

end Outcome.Alike

/-! ## Footprints -/

/-- A stage that looks at no more than the one region, and changes no more than the other. -/
structure HasFootprint (looksAt changes : Region) (stage : Tree → Outcome ε) : Prop where
  changes_subset : changes ⊆ looksAt
  keeps : ∀ t : Tree, t.Alike changesᶜ t (stage t).tree
  alike : ∀ {origin t u : Tree}, origin.Alike looksAt t u →
    Outcome.Alike origin looksAt (stage t) (stage u)

namespace HasFootprint

variable {looksAt changes looksAt' changes' : Region} {f g : Tree → Outcome ε}

/-- Trees that are alike in more than a stage looks at are alike in it afterwards. -/
lemma alike_of_subset (hf : HasFootprint looksAt changes f) (hsub : looksAt ⊆ region)
    (h : origin.Alike region t u) : Outcome.Alike origin region (f t) (f u) := by
  have hseen := hf.alike (h.mono hsub)
  have hkept : origin.Alike (region ∩ changesᶜ) (f t).tree (f u).tree := by
    have ht := ((hf.keeps t).rebase h.left).mono (Set.inter_subset_right (s := region))
    have hu := ((hf.keeps u).rebase h.right).mono (Set.inter_subset_right (s := region))
    exact ht.symm.trans ((h.mono Set.inter_subset_left).trans hu)
  refine ⟨(hseen.tree.union hkept).mono fun x hx => ?_, hseen.result_eq⟩
  by_cases hchanged : x ∈ changes
  · exact .inl (hf.changes_subset hchanged)
  · exact .inr ⟨hx, hchanged⟩

/-- Stages of which neither looks at what the other changes can be done in either order. -/
theorem commute (hf : HasFootprint looksAt changes f) (hg : HasFootprint looksAt' changes' g)
    (hfg : Disjoint changes looksAt') (hgf : Disjoint changes' looksAt) (t : Tree) :
    (f (g t).tree).tree = (g (f t).tree).tree ∧ (f (g t).tree).result = (f t).result ∧
      (g (f t).tree).result = (g t).result := by
  have hafter := hf.alike_of_subset (Disjoint.subset_compl_left hgf) (hg.keeps t)
  have hafter' := hg.alike_of_subset (Disjoint.subset_compl_left hfg) (hf.keeps t)
  -- What `g` does not change is as `f` alone leaves it, and the other way round.
  have hone : t.Alike changes'ᶜ (f (g t).tree).tree (g (f t).tree).tree :=
    hafter.tree.symm.trans ((hg.keeps (f t).tree).rebase hafter.tree.left)
  have hother : t.Alike changesᶜ (f (g t).tree).tree (g (f t).tree).tree :=
    ((hf.keeps (g t).tree).rebase hafter'.tree.left).symm.trans hafter'.tree
  have hall : t.Alike Set.univ (f (g t).tree).tree (g (f t).tree).tree := by
    refine (hone.union hother).mono fun x _ => ?_
    by_cases hchanged : x ∈ changes
    · exact .inl fun hx => Set.disjoint_left.1 hgf hx (hf.changes_subset hchanged)
    · exact .inr hchanged
  exact ⟨hall.eq, hafter.result_eq, hafter'.result_eq⟩

end HasFootprint

end Bindery
