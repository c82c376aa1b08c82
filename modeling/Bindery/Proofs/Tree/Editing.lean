import Bindery.Proofs.Sweep
import Mathlib.Data.Set.Insert

/-!
# One edit for many declarations

`t.EditedAt edit W u` says that `u` is `t` with the same edit made to all declarations of a set, and
nothing else.  This determines `u` (`EditedAt.unique`).  An edit changes nothing the second time
(`Edit.apply_apply`), so a sweep leads there in whatever order, and however often, it comes to the
declarations of the set (`Progress.editedAt_sweep`).
-/

namespace Bindery

@[simp]
lemma Signature.withDefaults_withDefaults (s : Signature) (values : List (Option String)) :
    (s.withDefaults values).withDefaults values = s.withDefaults values := by
  obtain ⟨result, arguments, isVariadic⟩ := s
  simp only [withDefaults, Signature.mk.injEq, and_true, true_and]
  induction arguments generalizing values with
  | nil => simp
  | cons a as ih =>
    cases values with
    | nil => simp
    | cons v vs => simp [ih, Argument.withDefault]

theorem Edit.apply_apply (edit : Edit) (d : Decl) : edit.apply (edit.apply d) = edit.apply d := by
  obtain ⟨usr, name, headerName, ignored, access, payload⟩ := d
  cases edit <;> cases payload <;>
    simp [apply, applyPayload, Payload.signature?, Payload.withSignature]

namespace Tree

variable {edit : Edit} {t u v : Tree} {W : Set Nat} {id : Nat}

/-- `u` is `t` with an edit made to the declarations in `W`. -/
structure EditedAt (edit : Edit) (t : Tree) (W : Set Nat) (u : Tree) : Prop where
  size_eq : u.size = t.size
  parent?_eq : ∀ id, u.parent? id = t.parent? id
  decl_of_mem : ∀ id ∈ W, u.decl id = edit.apply (t.decl id)
  decl_of_notMem : ∀ id ∉ W, u.decl id = t.decl id

namespace EditedAt

lemma refl (edit : Edit) (t : Tree) : t.EditedAt edit ∅ t where
  size_eq := rfl
  parent?_eq _ := rfl
  decl_of_mem _ hid := absurd hid (Set.notMem_empty _)
  decl_of_notMem _ _ := rfl

/-- One more declaration is edited, or one that has been edited already. -/
lemma edit_union (h : t.EditedAt edit W u) (hid : id < t.size) :
    t.EditedAt edit (W ∪ {id}) (u.edit id edit) where
  size_eq := (size_edit u id edit).trans h.size_eq
  parent?_eq i := (parent?_edit u id edit i).trans (h.parent?_eq i)
  decl_of_mem i hi := by
    by_cases heq : id = i
    · subst heq
      rw [decl_edit, if_pos ⟨rfl, h.size_eq ▸ hid⟩]
      by_cases hmem : id ∈ W
      · rw [h.decl_of_mem id hmem, edit.apply_apply]
      · rw [h.decl_of_notMem id hmem]
    · rw [decl_edit_of_ne heq]
      exact h.decl_of_mem i (hi.resolve_right (Ne.symm heq))
  decl_of_notMem i hi := by
    rw [Set.mem_union, not_or] at hi
    rw [decl_edit_of_ne (Ne.symm hi.2), h.decl_of_notMem i hi.1]

/-- What has the edit made to a set of declarations is one tree. -/
theorem unique (h : t.EditedAt edit W u) (h' : t.EditedAt edit W v) : v = u := by
  refine ext_reads (h'.size_eq.trans h.size_eq.symm)
    (fun id _ => (h'.parent?_eq id).trans (h.parent?_eq id).symm) fun id _ => ?_
  by_cases hid : id ∈ W
  · rw [h.decl_of_mem id hid, h'.decl_of_mem id hid]
  · rw [h.decl_of_notMem id hid, h'.decl_of_notMem id hid]

end EditedAt

end Tree

theorem Progress.editedAt_sweep {edit : Edit} {step : Tree → Nat → Progress} {ids : List Nat}
    {t : Tree} (hstep : ∀ t id, (step t id).tree = t.edit id edit) (hids : ∀ id ∈ ids, id < t.size) :
    t.EditedAt edit {id | id ∈ ids} (sweep step ids t).tree := by
  suffices h : ∀ (W : Set Nat) (u : Tree), t.EditedAt edit W u →
      t.EditedAt edit (W ∪ {id | id ∈ ids}) (sweep step ids u).tree by
    simpa using h ∅ t (.refl edit t)
  induction ids with
  | nil => simp [unchanged]
  | cons id ids ih =>
    obtain ⟨hid, hids⟩ := List.forall_mem_cons.1 hids
    intro W u hu
    have hmem : W ∪ {i | i ∈ id :: ids} = W ∪ {id} ∪ {i | i ∈ ids} := by
      ext i
      simp only [Set.mem_union, Set.mem_ofPred_eq, Set.mem_singleton_iff, List.mem_cons, or_assoc]
    rw [hmem, sweep_cons, tree_andThen, hstep]
    exact ih hids _ _ (hu.edit_union hid)

end Bindery
