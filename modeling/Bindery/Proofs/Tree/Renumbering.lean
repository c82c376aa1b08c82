import Mathlib.Data.Finset.Card
import Bindery.Proofs.Tree.Rearrangement
import Bindery.Proofs.Tree.Reloading
import Bindery.Tree.Typedefs

/-!
# Trees that differ in the order of insertion only

A document lists what lies inside a declaration right behind it, so a tree that is loaded from one
may hold its declarations at other positions than the tree that was dumped.  `Renumbered σ t u` says
that this is all: what stands at `id` in `t` stands at `σ id` in `u`, and every scope lists the same
children in the same order.

* Every question about a tree has the same answer in both, up to `σ`.  Only a look-up by name may
  list its answers in another order (`declaredAs_perm`).
* The same edit, and the same insertion, lead to trees that are renumbered by the same `σ`
  (`Renumbered.edit`, `Renumbered.insert`): a new declaration gets the same position in both.
* Trees are renumbered exactly when they have the same nodes (`toNodes_eq_iff`).
-/

namespace Bindery.Tree

open Equiv (Perm)

/-- `u` holds the declarations of `t` at the positions that `σ` gives them.  Positions outside of
the trees are left alone. -/
structure Renumbered (σ : Perm Nat) (t u : Tree) : Prop where
  size_eq : u.size = t.size
  fixed : ∀ id, t.size ≤ id → σ id = id
  decl_eq : ∀ id, u.decl (σ id) = t.decl id
  children_eq : ∀ id, u.children (σ id) = (t.children id).map σ
  units_eq : u.translationUnits = t.translationUnits.map σ

namespace Renumbered

variable {σ : Perm Nat} {t u : Tree}

/-! ## Places -/

lemma parent?_eq (h : Renumbered σ t u) (id : Nat) :
    u.parent? (σ id) = (t.parent? id).map σ := by
  ext p
  obtain ⟨p, rfl⟩ := σ.surjective p
  have hchild : σ id ∈ u.children (σ p) ↔ id ∈ t.children p := by
    rw [h.children_eq, List.mem_map_of_injective σ.injective]
  rw [← mem_children_iff, hchild, mem_children_iff,
    ← Option.map_some, (Option.map_injective σ.injective).eq_iff]

lemma rearranged (h : Renumbered σ t u) : Rearranged σ t u where
  size_eq := h.size_eq
  fixed := h.fixed
  decl_eq := h.decl_eq
  parent?_eq := h.parent?_eq

/-- A renumbering maps the numbers of the one tree onto those of the other. -/
lemma lt_size_iff (h : Renumbered σ t u) {id : Nat} : σ id < u.size ↔ id < t.size :=
  h.rearranged.lt_size_iff

/-- Identifiers are looked up by text, so they lead to the same declaration under its other number.
-/
lemma get?_eq (h : Renumbered σ t u) (usr : Usr) : u.get? usr = (t.get? usr).map σ :=
  h.rearranged.get?_eq usr

/-! ## Lists of declarations -/

/-- Renumbered declarations pass a test if and only if the original ones pass the corresponding
one. -/
lemma filter_eq {p q : Nat → Bool} (hpq : ∀ id, q (σ id) = p id) (ids : List Nat) :
    (ids.map σ).filter q = (ids.filter p).map σ := by
  rw [List.filter_map]
  congr 1
  exact List.filter_congr fun id _ => hpq id

/-- The first declaration that passes a test is the same, as lists keep their order. -/
lemma find?_eq {p q : Nat → Bool} (hpq : ∀ id, q (σ id) = p id) (ids : List Nat) :
    (ids.map σ).find? q = (ids.find? p).map σ := by
  rw [← List.head?_filter, ← List.head?_filter, filter_eq hpq, List.head?_map]

lemma childrenOfKind_eq (h : Renumbered σ t u) (id : Nat) (kind : Kind) :
    u.childrenOfKind (σ id) kind = (t.childrenOfKind id kind).map σ := by
  rw [childrenOfKind, h.children_eq]
  exact filter_eq (fun c => by rw [h.decl_eq]) _

/-- A look-up by name finds the same declarations, though maybe in another order. -/
theorem declaredAs_perm (h : Renumbered σ t u) (name : String) :
    (u.declaredAs name).Perm ((t.declaredAs name).map σ) := by
  have hnodup : ∀ v : Tree, (v.declaredAs name).Nodup := fun v =>
    (v.pairwise_lt_declaredAs name).imp Nat.ne_of_lt
  refine Rearranged.perm_map (hnodup t) (hnodup u) fun id => ?_
  rw [mem_declaredAs_iff, mem_declaredAs_iff, h.lt_size_iff, h.decl_eq]

/-- The order of a subtree is that of the children, which is the same in both. -/
lemma subtree_eq (h : Renumbered σ t u) (id : Nat) :
    u.subtree (σ id) = (t.subtree id).map σ := by
  induction id using subtree.induct t with
  | case1 id ih =>
    rw [Tree.subtree_eq u, Tree.subtree_eq t, descendants, descendants, h.children_eq,
      List.flatMap_map, List.map_cons, List.map_flatMap]
    congr 1
    rw [List.flatMap_def, List.flatMap_def, List.map_congr_left ih]

lemma walk_eq (h : Renumbered σ t u) : u.walk = t.walk.map σ := by
  rw [walk, walk, h.units_eq, List.flatMap_map, List.map_flatMap]
  congr 1
  exact funext h.subtree_eq

/-- Going up leads past the same declarations. -/
lemma lineage_eq (h : Renumbered σ t u) (id : Nat) :
    u.lineage (σ id) = (t.lineage id).map σ :=
  lineage_map fun e _ => h.parent?_eq e

lemma inNamespaceScope_eq (h : Renumbered σ t u) (id : Nat) :
    u.inNamespaceScope (σ id) = t.inNamespaceScope id := by
  rw [inNamespaceScope, inNamespaceScope, h.parent?_eq, Option.any_map]
  simp only [h.decl_eq]

/-- Visibility depends on the lineage. -/
lemma isVisible_eq (h : Renumbered σ t u) (id : Nat) : u.isVisible (σ id) = t.isVisible id := by
  rw [isVisible, isVisible, h.lineage_eq, List.all_map]
  simp only [Function.comp_def, h.decl_eq]

/-! ## Types -/

lemma declared?_eq (h : Renumbered σ t u) (type : QualType) :
    u.declared? type = t.declared? type := by
  rw [declared?, declared?]
  cases type.declared? with
  | none => rfl
  | some usr =>
    simp only [Option.bind_some, h.get?_eq, Option.map_map]
    congr 1
    exact funext h.decl_eq

/-- A type names its typedef by identifier, so numbers play no part in it. -/
lemma typedefTarget?_eq (h : Renumbered σ t u) (type : QualType) :
    u.typedefTarget? type = t.typedefTarget? type := by
  rw [typedefTarget?, typedefTarget?, h.declared?_eq]

lemma follow_eq (h : Renumbered σ t u) (steps : Nat) (type : QualType) :
    u.follow steps type = t.follow steps type := by
  induction steps generalizing type with
  | zero => rfl
  | succ steps ih =>
    rw [follow, follow, h.typedefTarget?_eq]
    cases t.typedefTarget? type with
    | none => rfl
    | some next => exact ih next

/-- Typedefs lead to the same types, with the same messages. -/
lemma behindTypedefs_eq (h : Renumbered σ t u) (type : QualType) :
    u.behindTypedefs type = t.behindTypedefs type := by
  rw [behindTypedefs, behindTypedefs, h.follow_eq]

lemma classBehind_eq (h : Renumbered σ t u) (type : QualType) :
    (u.classBehind type).value = (t.classBehind type).value.map σ := by
  have hclass : ∀ target : QualType,
      ((target.declared?.bind u.get?).filter fun id => (u.decl id).kind = .classType) =
        ((target.declared?.bind t.get?).filter fun id => (t.decl id).kind = .classType).map σ := by
    intro target
    cases target.declared? with
    | none => rfl
    | some usr =>
      rw [Option.bind_some, Option.bind_some, h.get?_eq, Option.filter_map]
      simp only [Function.comp_def, h.decl_eq]
  rw [classBehind, classBehind, Logged.value_bind, Logged.value_bind, h.behindTypedefs_eq]
  cases (t.behindTypedefs type).value.pointee? with
  | none => exact hclass _
  | some pointee =>
    simp only [Logged.value_bind, Logged.value_pure, h.behindTypedefs_eq]
    exact hclass _

lemma isOpaque_eq (h : Renumbered σ t u) (type : QualType) :
    u.isOpaque type = t.isOpaque type := by
  rw [isOpaque, isOpaque, h.behindTypedefs_eq]
  congr 1
  funext resolved
  cases resolved.declared? with
  | none => rfl
  | some usr =>
    dsimp only
    rw [h.get?_eq]
    cases t.get? usr with
    | none => rfl
    | some id => simp only [Option.map_some, h.decl_eq]

/-! ## Changes -/

protected theorem edit (h : Renumbered σ t u) (id : Nat) (edit : Edit) :
    Renumbered σ (t.edit id edit) (u.edit (σ id) edit) where
  size_eq := by rw [size_edit, size_edit, h.size_eq]
  fixed i hi := h.fixed i (size_edit t id edit ▸ hi)
  decl_eq i := by
    rw [decl_edit, decl_edit, h.decl_eq]
    simp only [σ.injective.eq_iff, h.lt_size_iff]
  children_eq i := by rw [children_edit, children_edit, h.children_eq]
  units_eq := by rw [translationUnits_edit, translationUnits_edit, h.units_eq]

/-- There is room for a declaration in the one tree if there is in the other. -/
lemma admits_eq (h : Renumbered σ t u) (parent : Option Nat) (kind : Kind) :
    u.admits (parent.map σ) kind = t.admits parent kind := by
  rw [Bool.eq_iff_iff, admits_iff, admits_iff]
  cases parent with
  | none => simp
  | some p => simp [h.lt_size_iff, h.decl_eq]

/-- What is added to both trees gets the same position in both. -/
protected theorem insert (h : Renumbered σ t u) {parent : Option Nat} {decl : Decl} {t' : Tree}
    (hinsert : t.insert parent decl = .ok t') :
    ∃ u', u.insert (parent.map σ) decl = .ok u' ∧ Renumbered σ t' u' := by
  obtain ⟨hplace, hfresh, -⟩ := insert_eq_ok_iff.1 hinsert
  obtain ⟨u', hinsert'⟩ := exists_insert_eq_ok ((h.admits_eq parent decl.kind).trans hplace)
    (show u.get? decl.usr = none by rw [h.get?_eq, hfresh, Option.map_none])
  have hnew : σ t.size = t.size := h.fixed _ (Nat.le_refl _)
  have hplaced : ∀ place : Option Nat, parent.map σ = place.map σ ↔ parent = place := fun place =>
    (Option.map_injective σ.injective).eq_iff
  refine ⟨u', hinsert', ?_, ?_, ?_, ?_, ?_⟩
  · rw [size_of_insert hinsert, size_of_insert hinsert', h.size_eq]
  · intro id hid
    rw [size_of_insert hinsert] at hid
    exact h.fixed id (by omega)
  · intro id
    rw [decl_of_insert hinsert, decl_of_insert hinsert', h.size_eq, h.decl_eq]
    have hid : σ id = t.size ↔ id = t.size := by
      rw [← hnew, σ.injective.eq_iff, hnew]
    simp only [hid]
  · intro id
    rw [children_of_insert hinsert, children_of_insert hinsert', h.size_eq, h.children_eq,
      List.map_append]
    congr 1
    simp only [← Option.map_some, hplaced]
    split <;> simp [hnew]
  · rw [translationUnits_of_insert hinsert, translationUnits_of_insert hinsert', h.size_eq,
      h.units_eq, List.map_append]
    congr 1
    simp only [Option.map_eq_none_iff]
    split <;> simp [hnew]

/-! ## Nodes -/

/-- A node has no numbers in it. -/
lemma toNode_eq (h : Renumbered σ t u) (id : Nat) : u.toNode (σ id) = t.toNode id := by
  induction id using toNode.induct t with
  | case1 id ih =>
    rw [Tree.toNode_eq u, Tree.toNode_eq t, h.decl_eq, h.children_eq, List.map_map]
    congr 1
    exact List.map_congr_left ih

lemma toNodes_eq (h : Renumbered σ t u) : u.toNodes = t.toNodes := by
  rw [toNodes, toNodes, h.units_eq, List.map_map]
  exact List.map_congr_left fun id _ => h.toNode_eq id

end Renumbered

/-! ## Trees with the same nodes -/

section Twins

variable {t u : Tree}

/-- Where the declaration that stands at a position of `t` stands in `u`. -/
def twin (t u : Tree) (id : Nat) : Nat :=
  if id < t.size then (u.get? (t.decl id).usr).getD id else id

/-- A node holds its whole declaration. -/
lemma decl_eq_of_toNode {i j : Nat} (h : u.toNode j = t.toNode i) : u.decl j = t.decl i := by
  rw [toNode_eq, toNode_eq, DeclNode.mk.injEq] at h
  exact ofDecl_injective h.1

/-- A node holds the nodes of its children, in order. -/
lemma map_children_of_toNode {i j : Nat} (h : u.toNode j = t.toNode i) :
    (u.children j).map u.toNode = (t.children i).map t.toNode := by
  rw [toNode_eq, toNode_eq, DeclNode.mk.injEq] at h
  exact h.2

/-- Two declarations with the same node have the same identifier, so each is what the other's
identifier leads to. -/
lemma twin_eq_of_toNode {i j : Nat} (hi : i < t.size) (hj : j < u.size)
    (h : u.toNode j = t.toNode i) : twin t u i = j := by
  rw [twin, if_pos hi, get?_eq_some_iff.2 ⟨hj, congrArg Decl.usr (decl_eq_of_toNode h)⟩,
    Option.getD_some]

/-- If two trees have the same nodes, every declaration has a twin, and the two have the same
node. -/
lemma exists_twin (h : u.toNodes = t.toNodes) {i : Nat} (hi : i < t.size) :
    ∃ j < u.size, u.toNode j = t.toNode i := by
  induction i using lineage.induct t with
  | case1 i p hp ih =>
    obtain ⟨q, -, hq⟩ := ih (Nat.lt_trans (parent?_lt hp) hi)
    have hmem : t.toNode i ∈ (u.children q).map u.toNode := by
      rw [map_children_of_toNode hq]
      exact List.mem_map_of_mem (mem_children_iff.2 hp)
    obtain ⟨j, hj, hnode⟩ := List.mem_map.1 hmem
    exact ⟨j, (mem_children hj).2.1, hnode⟩
  | case2 i hi' =>
    have hmem : t.toNode i ∈ u.toNodes := by
      rw [h]
      exact List.mem_map_of_mem (mem_translationUnits_iff.2 ⟨hi, hi'⟩)
    obtain ⟨j, hj, hnode⟩ := List.mem_map.1 hmem
    exact ⟨j, (mem_translationUnits_iff.1 hj).1, hnode⟩

/-- Trees with the same nodes have the same identifiers: the node of every declaration occurs among
the nodes of the other tree. -/
lemma twin_spec (h : u.toNodes = t.toNodes) {i : Nat} (hi : i < t.size) :
    twin t u i < u.size ∧ u.toNode (twin t u i) = t.toNode i := by
  obtain ⟨j, hj, hnode⟩ := exists_twin h hi
  rw [twin_eq_of_toNode hi hj hnode]
  exact ⟨hj, hnode⟩

lemma twin_twin (h : u.toNodes = t.toNodes) {i : Nat} (hi : i < t.size) :
    twin u t (twin t u i) = i := by
  obtain ⟨hlt, hnode⟩ := twin_spec h hi
  exact twin_eq_of_toNode hlt hi hnode.symm

/-- Taking the twin is injective, so no tree has more declarations than the other. -/
lemma size_le_of_toNodes (h : u.toNodes = t.toNodes) : t.size ≤ u.size := by
  -- nodes do not say how large the tree is, but `twin_twin` makes finding twins injective
  have hle := Finset.card_le_card_of_injOn (s := Finset.range t.size) (t := Finset.range u.size)
    (twin t u) (fun i hi => by simpa using (twin_spec h (by simpa using hi)).1)
    (fun i hi j hj hij => by
      rw [← twin_twin h (Finset.mem_range.1 hi), hij, twin_twin h (Finset.mem_range.1 hj)])
  simpa using hle

lemma twin_involutive (h : u.toNodes = t.toNodes) (i : Nat) : twin u t (twin t u i) = i := by
  by_cases hi : i < t.size
  · exact twin_twin h hi
  · have hsize := size_le_of_toNodes h.symm
    rw [twin, twin, if_neg hi, if_neg (by omega)]

/-- The positions of the declarations of one tree in another one with the same nodes. -/
def renumbering (h : u.toNodes = t.toNodes) : Perm Nat where
  toFun := twin t u
  invFun := twin u t
  left_inv := twin_involutive h
  right_inv := twin_involutive h.symm

lemma map_twin_of_toNode {is js : List Nat} (his : ∀ i ∈ is, i < t.size)
    (hjs : ∀ j ∈ js, j < u.size) (h : js.map u.toNode = is.map t.toNode) :
    js = is.map (twin t u) := by
  induction is generalizing js with
  | nil => simpa using h
  | cons i is ih =>
    obtain ⟨j, js, rfl, hnode, hrest⟩ := List.map_eq_cons_iff.1 h
    rw [List.forall_mem_cons] at his hjs
    rw [List.map_cons, twin_eq_of_toNode his.1 hjs.1 hnode, ← ih his.2 hjs.2 hrest]

/-- The twins make up a renumbering. -/
lemma renumbered_of_toNodes (h : u.toNodes = t.toNodes) : Renumbered (renumbering h) t u where
  size_eq := Nat.le_antisymm (size_le_of_toNodes h.symm) (size_le_of_toNodes h)
  fixed id hid := if_neg (by omega)
  decl_eq id := by
    by_cases hid : id < t.size
    · exact decl_eq_of_toNode (twin_spec h hid).2
    · have hsize := size_le_of_toNodes h.symm
      have hfixed : renumbering h id = id := if_neg hid
      rw [hfixed, decl_of_size_le (by omega), decl_of_size_le (by omega)]
  children_eq id := by
    by_cases hid : id < t.size
    · exact map_twin_of_toNode (fun c hc => (mem_children hc).2.1)
        (fun c hc => (mem_children hc).2.1) (map_children_of_toNode (twin_spec h hid).2)
    · have hsize := size_le_of_toNodes h.symm
      have hfixed : renumbering h id = id := if_neg hid
      rw [hfixed, children_of_size_le (by omega), children_of_size_le (by omega), List.map_nil]
  units_eq := map_twin_of_toNode (fun _ hc => (mem_translationUnits_iff.1 hc).1)
    (fun _ hc => (mem_translationUnits_iff.1 hc).1) h

/-- Trees have the same nodes if and only if they differ in the order of insertion only. -/
theorem toNodes_eq_iff : u.toNodes = t.toNodes ↔ ∃ σ, Renumbered σ t u :=
  ⟨fun h => ⟨_, renumbered_of_toNodes h⟩, fun ⟨_, h⟩ => h.toNodes_eq⟩

end Twins

end Bindery.Tree
