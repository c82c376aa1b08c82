import Bindery.Proofs.Tree.Structure

/-!
# The walk reaches every declaration once

Downwards and upwards agree: a declaration lies in the subtree of another one exactly when that one
is in its lineage (`mem_subtree_iff`).  Since every lineage ends at a translation unit, the walk
reaches the whole tree (`mem_walk_iff`), and since a lineage holds at most one child of each scope,
it reaches nothing twice (`nodup_walk`).  It comes to everything after what it lies in
(`pairwise_walk`).
-/

namespace Bindery.Tree

variable {t : Tree} {id a b c p x : Nat}

/-! ## Lineages -/

/-- What a declaration lies in comes before it. -/
lemma le_of_mem_lineage (h : a ∈ t.lineage x) : a ≤ x := by
  induction x using lineage.induct t with
  | case1 x p hp ih =>
    rw [lineage_of_parent? hp, List.mem_cons] at h
    rcases h with rfl | h
    · exact Nat.le_refl _
    · exact Nat.le_of_lt (Nat.lt_of_le_of_lt (ih h) (parent?_lt hp))
  | case2 x hx =>
    rw [lineage_of_parent?_none hx, List.mem_singleton] at h
    exact Nat.le_of_eq h

/-- What lies around something around a declaration lies around the declaration. -/
lemma mem_lineage_trans (hab : a ∈ t.lineage b) (hbx : b ∈ t.lineage x) : a ∈ t.lineage x := by
  induction x using lineage.induct t with
  | case1 x p hp ih =>
    rw [lineage_of_parent? hp, List.mem_cons] at hbx ⊢
    rcases hbx with rfl | hbx
    · rwa [lineage_of_parent? hp, List.mem_cons] at hab
    · exact .inr (ih hbx)
  | case2 x hx =>
    rw [lineage_of_parent?_none hx, List.mem_singleton] at hbx
    rwa [← hbx]

/-- If parents correspond, so do lineages. -/
lemma lineage_map {u : Tree} {f : Nat → Nat}
    (h : ∀ e ∈ t.lineage x, u.parent? (f e) = (t.parent? e).map f) :
    u.lineage (f x) = (t.lineage x).map f := by
  have hx := h x (mem_lineage_self t x)
  induction x using lineage.induct t with
  | case1 x p hp ih =>
    have hp' : u.parent? (f x) = some (f p) := by rw [hx, hp, Option.map_some]
    rw [lineage_of_parent? hp, List.forall_mem_cons] at h
    rw [lineage_of_parent? hp', lineage_of_parent? hp, List.map_cons,
      ih h.2 (h.2 p (mem_lineage_self t p))]
  | case2 x hp =>
    have hp' : u.parent? (f x) = none := by rw [hx, hp, Option.map_none]
    rw [lineage_of_parent?_none hp', lineage_of_parent?_none hp, List.map_singleton]

/-- A lineage depends on the parents of those in it. -/
lemma lineage_congr {u : Tree} (h : ∀ e ∈ t.lineage x, u.parent? e = t.parent? e) :
    u.lineage x = t.lineage x := by
  rw [lineage_map (u := u) (f := fun e => e) fun e he => (h e he).trans Option.map_id'.symm,
    List.map_id']

/-- An edit moves nothing. -/
@[simp]
lemma lineage_edit (t : Tree) (target : Nat) (edit : Edit) (id : Nat) :
    (t.edit target edit).lineage id = t.lineage id :=
  lineage_congr fun e _ => parent?_edit t target edit e

lemma mem_lineage_of_parent? (h : t.parent? c = some p) : p ∈ t.lineage c := by
  rw [lineage_of_parent? h]
  exact List.mem_cons_of_mem _ (mem_lineage_self t p)

/-- Of two members of a lineage one lies in the other. -/
lemma mem_lineage_total (ha : a ∈ t.lineage x) (hb : b ∈ t.lineage x) :
    a ∈ t.lineage b ∨ b ∈ t.lineage a := by
  induction x using lineage.induct t with
  | case1 x p hp ih =>
    have hax := ha
    rw [lineage_of_parent? hp, List.mem_cons] at ha
    rcases ha with rfl | ha
    · exact .inr hb
    · have hbx := hb
      rw [lineage_of_parent? hp, List.mem_cons] at hb
      rcases hb with rfl | hb
      · exact .inl hax
      · exact ih ha hb
  | case2 x hx =>
    rw [lineage_of_parent?_none hx, List.mem_singleton] at ha hb
    exact .inl (by rw [ha, hb]; exact mem_lineage_self t x)

/-- A lineage holds at most one child of each scope. -/
lemma eq_of_mem_lineage (ha : a ∈ t.lineage x) (hb : b ∈ t.lineage x)
    (h : t.parent? a = t.parent? b) : a = b := by
  -- Were `a` strictly inside `b`, it would be inside the parent of `b`, which comes before it.
  have key : ∀ {i j : Nat}, t.parent? i = t.parent? j → i ∈ t.lineage j → i = j := by
    intro i j hij hmem
    cases hp : t.parent? j with
    | none =>
      rw [lineage_of_parent?_none hp, List.mem_singleton] at hmem
      exact hmem
    | some q =>
      rw [lineage_of_parent? hp, List.mem_cons] at hmem
      rcases hmem with rfl | hmem
      · rfl
      · have hle := le_of_mem_lineage hmem
        have hlt := parent?_lt (hij.trans hp)
        omega
  rcases mem_lineage_total ha hb with hab | hba
  · exact key h hab
  · exact (key h.symm hba).symm

/-- Every lineage ends at a translation unit. -/
lemma exists_root_mem_lineage (h : x < t.size) :
    ∃ root ∈ t.translationUnits, root ∈ t.lineage x := by
  induction x using lineage.induct t with
  | case1 x p hp ih =>
    obtain ⟨root, hroot, hmem⟩ := ih (Nat.lt_trans (parent?_lt hp) h)
    exact ⟨root, hroot, mem_lineage_trans hmem (mem_lineage_of_parent? hp)⟩
  | case2 x hx => exact ⟨x, mem_translationUnits_iff.2 ⟨h, hx⟩, mem_lineage_self t x⟩

/-- A qualified name is made of the names around, except those of translation units. -/
lemma qualifiedName_congr {u : Tree} (hlineage : u.lineage id = t.lineage id)
    (hsame : ∀ e ∈ t.lineage id, (u.decl e).kind = (t.decl e).kind ∧
      (u.decl e).name = (t.decl e).name) : u.qualifiedName id = t.qualifiedName id := by
  have hscopes : ((t.lineage id).filter fun e => (u.decl e).kind ≠ .translationUnit) =
      (t.lineage id).filter fun e => (t.decl e).kind ≠ .translationUnit :=
    List.filter_congr fun e he => by rw [(hsame e he).1]
  rw [qualifiedName, qualifiedName, hlineage, hscopes]
  refine congrArg _ (List.map_congr_left fun e he => (hsame e ?_).2)
  exact (List.mem_filter.1 (List.mem_reverse.1 he)).1

/-! ## Subtrees -/

/-- A subtree is its root with the subtrees of the children. -/
lemma mem_subtree : x ∈ t.subtree id ↔ x = id ∨ ∃ c ∈ t.children id, x ∈ t.subtree c := by
  rw [subtree_eq, descendants, List.mem_cons, List.mem_flatMap]

lemma mem_subtree_self (t : Tree) (id : Nat) : id ∈ t.subtree id := mem_subtree.2 (.inl rfl)

/-- Going up from a declaration of a subtree leads through its root. -/
lemma mem_lineage_of_mem_subtree (h : x ∈ t.subtree id) : id ∈ t.lineage x := by
  induction id using subtree.induct t with
  | case1 id ih =>
    rcases mem_subtree.1 h with rfl | ⟨c, hc, hx⟩
    · exact mem_lineage_self t x
    · exact mem_lineage_trans (mem_lineage_of_parent? (mem_children_iff.1 hc)) (ih c hc hx)

/-- A subtree holds the children of what it holds. -/
lemma mem_subtree_of_parent? (hc : t.parent? c = some p) (hp : p ∈ t.subtree id) :
    c ∈ t.subtree id := by
  induction id using subtree.induct t with
  | case1 id ih =>
    rcases mem_subtree.1 hp with rfl | ⟨d, hd, hpd⟩
    · exact mem_subtree.2 (.inr ⟨c, mem_children_iff.2 hc, mem_subtree_self t c⟩)
    · exact mem_subtree.2 (.inr ⟨d, hd, ih d hd hpd⟩)

/-- Looking down and looking up come to the same: below a declaration is what has it in its lineage.
-/
theorem mem_subtree_iff : x ∈ t.subtree id ↔ id ∈ t.lineage x := by
  refine ⟨mem_lineage_of_mem_subtree, fun h => ?_⟩
  induction x using lineage.induct t with
  | case1 x p hp ih =>
    rw [lineage_of_parent? hp, List.mem_cons] at h
    rcases h with rfl | h
    · exact mem_subtree_self t id
    · exact mem_subtree_of_parent? hp (ih h)
  | case2 x hx =>
    rw [lineage_of_parent?_none hx, List.mem_singleton] at h
    rw [h]
    exact mem_subtree_self t x

lemma lt_size_of_mem_subtree (hid : id < t.size) (h : x ∈ t.subtree id) : x < t.size := by
  rw [mem_subtree_iff] at h
  cases hp : t.parent? x with
  | none =>
    rw [lineage_of_parent?_none hp, List.mem_singleton] at h
    rwa [← h]
  | some p => exact lt_size_of_parent? hp

/-- Different declarations in one scope have nothing below them in common. -/
lemma disjoint_subtree (hne : a ≠ b) (h : t.parent? a = t.parent? b) :
    (t.subtree a).Disjoint (t.subtree b) := by
  intro x hxa hxb
  exact hne (eq_of_mem_lineage (mem_subtree_iff.1 hxa) (mem_subtree_iff.1 hxb) h)

/-- Siblings with nothing twice in their subtrees have nothing twice in all of them together, as the
subtrees of siblings are disjoint. -/
lemma nodup_flatMap_subtree {scope : Option Nat} {ids : List Nat} (hnodup : ids.Nodup)
    (hscope : ∀ c ∈ ids, t.parent? c = scope) (hsub : ∀ c ∈ ids, (t.subtree c).Nodup) :
    (ids.flatMap t.subtree).Nodup := by
  refine List.nodup_flatMap.2 ⟨hsub, ?_⟩
  refine hnodup.imp_of_mem fun ha hb hne => ?_
  exact disjoint_subtree hne ((hscope _ ha).trans (hscope _ hb).symm)

lemma nodup_subtree (t : Tree) (id : Nat) : (t.subtree id).Nodup := by
  induction id using subtree.induct t with
  | case1 id ih =>
    rw [subtree_eq, descendants, List.nodup_cons]
    refine ⟨fun hmem => ?_, ?_⟩
    · obtain ⟨c, hc, hid⟩ := List.mem_flatMap.1 hmem
      have hle := le_of_mem_lineage (mem_lineage_of_mem_subtree hid)
      have hlt := parent?_lt (mem_children_iff.1 hc)
      omega
    · exact nodup_flatMap_subtree (nodup_children t id) (fun c hc => mem_children_iff.1 hc) ih

/-- In a walk through several declarations of one scope nothing comes behind what lies in it. -/
lemma pairwise_flatMap_subtree {scope : Option Nat} {ids : List Nat} (hnodup : ids.Nodup)
    (hscope : ∀ c ∈ ids, t.parent? c = scope)
    (hsub : ∀ c ∈ ids, (t.subtree c).Pairwise fun a b => b ∉ t.lineage a) :
    (ids.flatMap t.subtree).Pairwise fun a b => b ∉ t.lineage a := by
  refine List.pairwise_flatMap.2 ⟨hsub, hnodup.imp_of_mem fun {c d} hc hd hne a ha b hb hba => ?_⟩
  refine disjoint_subtree hne ((hscope c hc).trans (hscope d hd).symm) ha ?_
  exact mem_subtree_iff.2 (mem_lineage_trans (mem_lineage_of_mem_subtree hb) hba)

/-- In a subtree nothing comes before what it lies in. -/
lemma pairwise_subtree (t : Tree) (id : Nat) :
    (t.subtree id).Pairwise fun a b => b ∉ t.lineage a := by
  induction id using subtree.induct t with
  | case1 id ih =>
    rw [subtree_eq, descendants, List.pairwise_cons]
    refine ⟨fun x hx hmem => ?_, ?_⟩
    · obtain ⟨c, hc, hx⟩ := List.mem_flatMap.1 hx
      have hle := le_of_mem_lineage (mem_lineage_of_mem_subtree hx)
      have hlt := parent?_lt (mem_children_iff.1 hc)
      have := le_of_mem_lineage hmem
      omega
    · exact pairwise_flatMap_subtree (nodup_children t id) (fun c hc => mem_children_iff.1 hc) ih

/-! ## The walk -/

/-- The walk reaches every declaration. -/
theorem mem_walk_iff : x ∈ t.walk ↔ x < t.size := by
  rw [walk, List.mem_flatMap]
  constructor
  · rintro ⟨root, hroot, hx⟩
    exact lt_size_of_mem_subtree (mem_translationUnits_iff.1 hroot).1 hx
  · intro h
    obtain ⟨root, hroot, hmem⟩ := exists_root_mem_lineage h
    exact ⟨root, hroot, mem_subtree_iff.2 hmem⟩

/-- The walk reaches no declaration twice. -/
theorem nodup_walk (t : Tree) : t.walk.Nodup :=
  nodup_flatMap_subtree ((pairwise_lt_translationUnits t).imp Nat.ne_of_lt)
    (fun _ hc => (mem_translationUnits_iff.1 hc).2) fun c _ => nodup_subtree t c

/-- The walk comes to a declaration after all it lies in. -/
theorem pairwise_walk (t : Tree) : t.walk.Pairwise fun a b => b ∉ t.lineage a :=
  pairwise_flatMap_subtree ((pairwise_lt_translationUnits t).imp Nat.ne_of_lt)
    (fun _ hc => (mem_translationUnits_iff.1 hc).2) fun c _ => pairwise_subtree t c

end Bindery.Tree
