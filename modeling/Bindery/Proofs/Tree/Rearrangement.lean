import Mathlib.Logic.Equiv.Defs
import Bindery.Proofs.Tree.Walking

/-!
# Trees with the same declarations in another order

`Rearranged σ t u` says that what stands at `id` in `t` stands at `σ id` in `u`, inside of the same
declaration.  Siblings, and classes in particular, may have been declared in any order.

What is looked up by identifier is the same in both trees.  What is listed may come in another
order.
-/

namespace Bindery.Tree

open Equiv (Perm)

/-- `u` holds the declarations of `t` inside of the same declarations, at the positions that `σ`
gives them.  Positions outside of the trees are left alone. -/
structure Rearranged (σ : Perm Nat) (t u : Tree) : Prop where
  size_eq : u.size = t.size
  fixed : ∀ id, t.size ≤ id → σ id = id
  decl_eq : ∀ id, u.decl (σ id) = t.decl id
  parent?_eq : ∀ id, u.parent? (σ id) = (t.parent? id).map σ

namespace Rearranged

variable {σ : Perm Nat} {t u : Tree}

lemma lt_size_iff (h : Rearranged σ t u) {id : Nat} : σ id < u.size ↔ id < t.size := by
  rw [h.size_eq]
  constructor
  · intro hlt
    by_contra hid
    rw [h.fixed id (by omega)] at hlt
    exact hid hlt
  · intro hlt
    by_contra hid
    have hfixed : σ id = id := σ.injective (h.fixed (σ id) (by omega))
    omega

theorem get?_eq (h : Rearranged σ t u) (usr : Usr) : u.get? usr = (t.get? usr).map σ := by
  ext id
  obtain ⟨id, rfl⟩ := σ.surjective id
  rw [get?_eq_some_iff, h.lt_size_iff, h.decl_eq, ← get?_eq_some_iff, ← Option.map_some,
    (Option.map_injective σ.injective).eq_iff]

lemma parent?_eq_some_iff (h : Rearranged σ t u) {id p : Nat} :
    u.parent? (σ id) = some (σ p) ↔ t.parent? id = some p := by
  rw [h.parent?_eq, ← Option.map_some, (Option.map_injective σ.injective).eq_iff]

/-- Lists without repetitions that hold corresponding declarations differ in the order only. -/
lemma perm_map {ids ids' : List Nat} (hids : ids.Nodup) (hids' : ids'.Nodup)
    (h : ∀ id, σ id ∈ ids' ↔ id ∈ ids) : ids'.Perm (ids.map σ) := by
  rw [List.perm_ext_iff_of_nodup hids' (hids.map σ.injective)]
  intro id
  obtain ⟨id, rfl⟩ := σ.surjective id
  rw [List.mem_map_of_injective σ.injective, h]

theorem ids_perm (h : Rearranged σ t u) : u.ids.Perm (t.ids.map σ) :=
  perm_map List.nodup_range List.nodup_range fun id => by
    rw [mem_ids_iff, mem_ids_iff, h.lt_size_iff]

end Rearranged

end Bindery.Tree
