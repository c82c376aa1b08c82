import Bindery.Proofs.Tree.Development

/-!
# Running a step over many declarations

A sweep does what its steps do.  If each step keeps an invariant, so does the sweep
(`Progress.sweep_invariant`); if a step settles something about its declaration that no other step
undoes, then after the sweep it is settled for all of them (`Progress.sweep_establishes`); and a
sweep of steps that change nothing changes nothing (`Progress.sweep_idle`).

`Progress.Idle` and `Outcome.Idle` say that nothing was changed.  A sweep of steps that may fail but
never do is a sweep of steps that cannot (`Outcome.sweep_eq_ofProgress`).
-/

namespace Bindery

namespace Progress

variable {step : Tree → Nat → Progress} {ids : List Nat} {t : Tree}

/-- The tree is what it was before, and no change was counted. -/
def Idle (p : Progress) (t : Tree) : Prop := p.tree = t ∧ p.changes = 0

lemma idle_unchanged (t : Tree) : (unchanged t).Idle t := ⟨rfl, rfl⟩

lemma Idle.andThen {p : Progress} {next : Tree → Progress} (hp : p.Idle t)
    (hnext : (next t).Idle t) : (p.andThen next).Idle t := by
  obtain ⟨htree, hchanges⟩ := hp
  rw [Idle, tree_andThen, changes_andThen, htree, hchanges, Nat.zero_add]
  exact hnext

/-- A sweep can be interrupted between two declarations. -/
lemma sweep_append (step : Tree → Nat → Progress) (front ids : List Nat) (t : Tree) :
    sweep step (front ++ ids) t = (sweep step front t).andThen (sweep step ids) := by
  induction front generalizing t with
  | nil => simp [andThen, unchanged]
  | cons id front ih => simp [ih, andThen, Nat.add_assoc]

/-- A sweep whose steps have nothing to do has nothing to do. -/
theorem sweep_idle (h : ∀ id ∈ ids, (step t id).Idle t) : (sweep step ids t).Idle t := by
  induction ids with
  | nil => exact idle_unchanged t
  | cons id ids ih =>
    exact (h id List.mem_cons_self).andThen (ih fun i hi => h i (List.mem_cons_of_mem _ hi))

/-- If no change is counted, no step counts one. -/
lemma changes_of_sweep (hstep : ∀ t id, (step t id).changes = 0 → (step t id).tree = t)
    (h : (sweep step ids t).changes = 0) : ∀ id ∈ ids, (step t id).changes = 0 := by
  induction ids with
  | nil => simp
  | cons id ids ih =>
    rw [sweep_cons, changes_andThen, Nat.add_eq_zero_iff] at h
    obtain ⟨hfirst, hrest⟩ := h
    rw [hstep t id hfirst] at hrest
    exact List.forall_mem_cons.2 ⟨hfirst, ih hrest⟩

/-- What every step keeps the whole sweep keeps. -/
theorem sweep_invariant {I : Tree → Prop} (hstep : ∀ id ∈ ids, ∀ t, I t → I (step t id).tree)
    (h : I t) : I (sweep step ids t).tree := by
  induction ids generalizing t with
  | nil => exact h
  | cons id ids ih =>
    exact ih (fun i hi => hstep i (List.mem_cons_of_mem _ hi)) (hstep id List.mem_cons_self t h)

lemma sweep_develops {free : List Field}
    (hstep : ∀ (t : Tree) (id : Nat), t.Develops free (step t id).tree)
    (ids : List Nat) (t : Tree) : t.Develops free (sweep step ids t).tree :=
  sweep_invariant (I := fun u => t.Develops free u) (fun id _ u h => h.trans (hstep u id))
    (.refl free t)

/-- What a step brings about for its declaration, and the others keep, holds for all of them in the
end. -/
theorem sweep_establishes {Q : Tree → Nat → Prop} (here : ∀ t id, Q (step t id).tree id)
    (keep : ∀ t id i, Q t i → Q (step t id).tree i) :
    ∀ id ∈ ids, Q (sweep step ids t).tree id := by
  induction ids generalizing t with
  | nil => simp
  | cons id ids ih =>
    intro i hi
    rcases List.mem_cons.1 hi with rfl | hi
    · refine sweep_invariant (I := fun u => Q u i) (t := (step t i).tree) ?_ (here t i)
      exact fun j _ u => keep u j i
    · exact ih i hi

lemma size_sweep (hstep : ∀ t id, (step t id).tree.size = t.size) (ids : List Nat) (t : Tree) :
    (sweep step ids t).tree.size = t.size :=
  sweep_invariant (I := fun u => u.size = t.size) (fun id _ u h => (hstep u id).trans h) rfl

/-- Each declaration belongs to one at most, its owner.  If a step changes only what belongs to the
one it is run for, and makes of it what can be told from the first tree, then a sweep does so for all
owners that it is run for.  To tell what a step does an invariant may be used. -/
lemma decl_sweep_of_owner {I : Tree → Prop} {owner : Nat → Option Nat} (after : Nat → Nat → Decl)
    (hown : ∀ u id, I u → (∀ i, owner i = some id → u.decl i = t.decl i) →
      ∀ i, owner i = some id → (step u id).tree.decl i = after id i)
    (hkeep : ∀ u id, I u → (∀ i, owner i = some id → u.decl i = t.decl i) → I (step u id).tree)
    (hothers : ∀ u {id i}, I u → owner i ≠ some id → (step u id).tree.decl i = u.decl i)
    (hids : ids.Nodup) (ht : I t) {i id : Nat} (hi : owner i = some id) :
    (sweep step ids t).tree.decl i = if id ∈ ids then after id i else t.decl i := by
  -- on the way what belongs to the owners that are still to come is as in the first tree
  suffices h : ∀ u : Tree, I u → (∀ id ∈ ids, ∀ i, owner i = some id → u.decl i = t.decl i) →
      (sweep step ids u).tree.decl i = if id ∈ ids then after id i else u.decl i from
    h t ht fun _ _ _ _ => rfl
  induction ids with
  | nil => exact fun u _ _ => rfl
  | cons first ids ih =>
    intro u hu hsame
    obtain ⟨hfirst, hnodup⟩ := List.nodup_cons.1 hids
    obtain ⟨hhere, hrest⟩ := List.forall_mem_cons.1 hsame
    have hnext : ∀ j ∈ ids, ∀ i, owner i = some j → (step u first).tree.decl i = t.decl i := by
      intro j hj i hij
      have hne : owner i ≠ some first := fun heq =>
        ne_of_mem_of_not_mem hj hfirst (Option.some.inj (hij.symm.trans heq))
      rw [hothers u hu hne, hrest j hj i hij]
    rw [sweep_cons, tree_andThen, ih hnodup _ (hkeep u first hu hhere) hnext]
    by_cases howner : id = first
    · subst howner
      rw [if_neg hfirst, if_pos List.mem_cons_self, hown u id hu hhere i hi]
    · rw [hothers u hu fun heq => howner (Option.some.inj (hi.symm.trans heq))]
      simp only [List.mem_cons, howner, false_or]

/-- A sweep of steps that change the declaration they are run for only. -/
lemma decl_sweep {I : Tree → Prop} (after : Nat → Decl)
    (hown : ∀ u id, I u → u.decl id = t.decl id → (step u id).tree.decl id = after id)
    (hkeep : ∀ u id, I u → u.decl id = t.decl id → I (step u id).tree)
    (hothers : ∀ u {id i}, id ≠ i → (step u id).tree.decl i = u.decl i) (hids : ids.Nodup)
    (ht : I t) (i : Nat) :
    (sweep step ids t).tree.decl i = if i ∈ ids then after i else t.decl i := by
  refine decl_sweep_of_owner (fun _ => after) (fun u id hu hsame j hj => ?_)
    (fun u id hu hsame => hkeep u id hu (hsame id rfl))
    (fun u _ _ _ hne => hothers u fun heq => hne (congrArg some heq.symm)) hids ht rfl
  obtain rfl := Option.some.inj hj
  exact hown u j hu (hsame j rfl)

end Progress

namespace Outcome

variable {ε δ : Type} {t : Tree}

/-- There was no failure, the tree is what it was before, and no change was counted. -/
def Idle (o : Outcome ε) (t : Tree) : Prop := o.tree = t ∧ o.result = .ok 0

lemma idle_unchanged (t : Tree) : (unchanged t : Outcome ε).Idle t := ⟨rfl, rfl⟩

lemma idle_ofProgress {p : Progress} (h : p.Idle t) : (ofProgress p : Outcome ε).Idle t :=
  ⟨h.1, congrArg Except.ok h.2⟩

/-- Two idle things make an idle one: neither fails, and the second finds the tree of the first. -/
lemma Idle.andThen {o : Outcome ε} {next : Tree → Outcome ε} (ho : o.Idle t)
    (hnext : (next t).Idle t) : (o.andThen next).Idle t := by
  obtain ⟨htree, hresult⟩ := ho
  rw [andThen_of_ok hresult, Idle, htree, hnext.1, hnext.2]
  exact ⟨rfl, rfl⟩

lemma Idle.mapError {o : Outcome ε} (h : o.Idle t) (f : ε → δ) : (o.mapError f).Idle t :=
  ⟨h.1, by rw [Outcome.mapError, h.2, Except.mapError]⟩

@[simp] lemma tree_mapError (o : Outcome ε) (f : ε → δ) : (o.mapError f).tree = o.tree := rfl

@[simp] lemma tree_ofProgress (p : Progress) : (ofProgress p : Outcome ε).tree = p.tree := rfl

@[simp] lemma tree_logging (o : Outcome ε) (messages : Nat → Log) :
    (o.logging messages).tree = o.tree := by
  unfold logging
  cases o.result <;> rfl

@[simp] lemma result_logging (o : Outcome ε) (messages : Nat → Log) :
    (o.logging messages).result = o.result := by
  unfold logging
  split <;> rfl

lemma tree_andThen_ofProgress (p : Progress) (next : Tree → Outcome ε) :
    ((ofProgress p).andThen next).tree = (next p.tree).tree := rfl

/-- What is kept by what is done next is kept if nothing is done next, too. -/
lemma andThen_invariant {I : Tree → Prop} {o : Outcome ε} {next : Tree → Outcome ε}
    (h : I o.tree) (hnext : ∀ u, I u → I (next u).tree) : I (o.andThen next).tree := by
  cases hresult : o.result with
  | error e => rwa [andThen_of_error hresult]
  | ok n =>
    rw [andThen_of_ok hresult]
    exact hnext o.tree h

lemma develops_andThen {free : List Field} {o : Outcome ε} {next : Tree → Outcome ε}
    (h : t.Develops free o.tree) (hnext : ∀ u : Tree, u.Develops free (next u).tree) :
    t.Develops free (o.andThen next).tree :=
  andThen_invariant (I := fun u => t.Develops free u) h fun u hu => hu.trans (hnext u)

/-- What was done, when there was no failure. -/
def progress (o : Outcome ε) : Progress := ⟨o.tree, o.result.toOption.getD 0, o.log⟩

/-- Steps that never fail make up a sweep that never fails. -/
theorem sweep_eq_ofProgress {step : Tree → Nat → Outcome ε}
    (hstep : ∀ t id, ∃ n, (step t id).result = .ok n) (ids : List Nat) (t : Tree) :
    sweep step ids t = ofProgress (Progress.sweep (fun t id => (step t id).progress) ids t) := by
  induction ids generalizing t with
  | nil => rfl
  | cons id ids ih =>
    obtain ⟨n, hn⟩ := hstep t id
    have hchanges : (step t id).progress.changes = n := by simp [progress, hn, Except.toOption]
    rw [sweep, andThen_of_ok hn, ih, Progress.sweep_cons]
    simp only [ofProgress, Progress.andThen, hchanges, Except.map]
    rfl

end Outcome

end Bindery
