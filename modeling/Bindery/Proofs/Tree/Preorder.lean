import Bindery.Tree.Listing
import Bindery.Proofs.Tree.Walking

/-!
# The walk is a preorder

The walk of a tree comes to each declaration once, and to a declaration before all that lies in it
(`Tree.mem_front_of_walk`).  It goes through one translation unit after another: what lies in one of
them stands together (`Tree.filter_flatMap_subtree`).  A listing shows the declarations in the same
order, each as far in as it lies deep (`Tree.listFrom_eq_map`, `Tree.listing_eq_map`).
-/

namespace Bindery.Tree

variable {t : Tree} {id c p x : Nat} {ids : List Nat}

/-! ## Listings -/

/-- The number of declarations that a declaration lies in. -/
def depth (t : Tree) (id : Nat) : Nat := (t.lineage id).length - 1

/-- The line of a declaration, with two blanks before it for each level. -/
def indentedLine (t : Tree) (level id : Nat) : String :=
  String.ofList (List.replicate (2 * level) ' ') ++ (t.decl id).line

lemma depth_of_parent? (h : t.parent? c = some p) : t.depth c = t.depth p + 1 := by
  have hpos : 0 < (t.lineage p).length := List.length_pos_of_mem (mem_lineage_self t p)
  rw [depth, depth, lineage_of_parent? h, List.length_cons]
  omega

lemma depth_of_parent?_none (h : t.parent? id = none) : t.depth id = 0 := by
  rw [depth, lineage_of_parent?_none h]
  rfl

lemma depth_le_of_mem_subtree (h : x ∈ t.subtree id) : t.depth id ≤ t.depth x := by
  rw [mem_subtree_iff] at h
  induction x using lineage.induct t with
  | case1 x p hp ih =>
    rw [lineage_of_parent? hp, List.mem_cons] at h
    rcases h with rfl | h
    · exact Nat.le_refl _
    · have hle := ih h
      rw [depth_of_parent? hp]
      omega
  | case2 x hx =>
    rw [lineage_of_parent?_none hx, List.mem_singleton] at h
    exact Nat.le_of_eq (congrArg t.depth h)

lemma listFrom_eq (t : Tree) (depth id : Nat) :
    t.listFrom depth id =
      (String.ofList (List.replicate (2 * depth) ' ') ++ (t.decl id).line) ::
        (t.children id).flatMap (t.listFrom (depth + 1)) := by
  rw [listFrom]
  simp [List.flatMap_subtype]

/-- A listing shows a declaration and what lies below it in the order of a walk, and each of them as
far in as it lies deep. -/
theorem listFrom_eq_map (t : Tree) (level id : Nat) :
    t.listFrom level id = (t.subtree id).map fun x =>
      t.indentedLine (level + (t.depth x - t.depth id)) x := by
  induction id using subtree.induct t generalizing level with
  | case1 id ih =>
    have hbelow : ∀ c ∈ t.children id, t.listFrom (level + 1) c = (t.subtree c).map fun x =>
        t.indentedLine (level + (t.depth x - t.depth id)) x := by
      intro c hc
      rw [ih c hc]
      refine List.map_congr_left fun x hx => ?_
      have hdepth := depth_of_parent? (mem_children_iff.1 hc)
      have hle := depth_le_of_mem_subtree hx
      congr 1
      omega
    rw [listFrom_eq, List.flatMap_congr hbelow, subtree_eq, List.map_cons, Nat.sub_self,
      Nat.add_zero, indentedLine, descendants, List.map_flatMap]

theorem listing_eq_map (t : Tree) :
    t.listing = t.walk.map fun x => t.indentedLine (t.depth x) x := by
  rw [listing, walk, List.map_flatMap]
  refine List.flatMap_congr fun unit hunit => ?_
  rw [listFrom_eq_map, depth_of_parent?_none (mem_translationUnits_iff.1 hunit).2]
  simp

/-! ## Walks -/

/-- Of a walk through several declarations of one scope, what lies in one of them is its subtree. -/
theorem filter_flatMap_subtree {scope : Option Nat} (hnodup : ids.Nodup)
    (hscope : ∀ d ∈ ids, t.parent? d = scope) (hc : c ∈ ids) :
    (ids.flatMap t.subtree).filter (fun x => c ∈ t.lineage x) = t.subtree c := by
  obtain ⟨front, rest, rfl⟩ := List.append_of_mem hc
  have hown : (t.subtree c).filter (fun x => c ∈ t.lineage x) = t.subtree c := by
    rw [List.filter_eq_self]
    intro x hx
    exact decide_eq_true (mem_subtree_iff.1 hx)
  have hother : ∀ others ⊆ front ++ rest,
      others.flatMap (fun d => (t.subtree d).filter fun x => c ∈ t.lineage x) = [] := by
    intro others hothers
    simp only [List.flatMap_eq_nil_iff, List.filter_eq_nil_iff]
    intro d hd x hx hmem
    have hne : d ≠ c := by
      rintro rfl
      exact (List.nodup_middle.1 hnodup).notMem (hothers hd)
    have hsame : t.parent? d = t.parent? c := by
      rw [hscope c hc, hscope d (List.perm_middle.mem_iff.2 (List.mem_cons_of_mem c (hothers hd)))]
    exact disjoint_subtree hne hsame hx (mem_subtree_iff.2 (of_decide_eq_true hmem))
  rw [List.filter_flatMap, List.flatMap_append, List.flatMap_cons, hown,
    hother front (List.subset_append_left _ _), hother rest (List.subset_append_right _ _),
    List.nil_append, List.append_nil]

/-- The walk goes through the tree in preorder: it comes to each declaration once, behind its
parent, with all of a translation unit together, and in the order of a listing. -/
structure WalkedInPreorder (t : Tree) : Prop where
  descendants_eq : ∀ id, t.descendants id = (t.children id).flatMap fun c => c :: t.descendants c
  listFrom_eq : ∀ level id, t.listFrom level id = (id :: t.descendants id).map fun x =>
    t.indentedLine (level + (t.depth x - t.depth id)) x
  walk_eq : t.walk = t.translationUnits.flatMap fun unit => unit :: t.descendants unit
  listing_eq : t.listing = t.walk.map fun x => t.indentedLine (t.depth x) x
  nodup : t.walk.Nodup
  mem_iff : ∀ x, x ∈ t.walk ↔ x < t.size
  length_eq : t.walk.length = t.size
  parent_first : ∀ front c rest, t.walk = front ++ c :: rest →
    ∀ p, t.parent? c = some p → p ∈ front
  grouped : t.walk = t.translationUnits.flatMap fun unit =>
    t.walk.filter fun x => unit ∈ t.lineage x

lemma length_walk (t : Tree) : t.walk.length = t.size := by
  have hperm : t.walk.Perm t.ids := (List.perm_ext_iff_of_nodup (nodup_walk t) List.nodup_range).2
    fun x => mem_walk_iff.trans mem_ids_iff.symm
  rw [hperm.length_eq, ids, List.length_range]

theorem mem_front_of_walk {front rest : List Nat} (hsplit : t.walk = front ++ c :: rest)
    (hp : t.parent? c = some p) : p ∈ front := by
  have hpwalk : p ∈ t.walk :=
    mem_walk_iff.2 (Nat.lt_trans (parent?_lt hp) (lt_size_of_parent? hp))
  have hlater := pairwise_walk t
  rw [hsplit] at hpwalk hlater
  rw [List.mem_append, List.mem_cons] at hpwalk
  rcases hpwalk with hfront | rfl | hrest
  · exact hfront
  · exact absurd (parent?_lt hp) (Nat.lt_irrefl _)
  · have hbehind := (List.pairwise_cons.1 (List.pairwise_append.1 hlater).2.1).1 p hrest
    exact absurd (mem_lineage_of_parent? hp) hbehind

lemma walkedInPreorder (t : Tree) : t.WalkedInPreorder where
  descendants_eq id := List.flatMap_congr fun c _ => subtree_eq t c
  listFrom_eq level id := by rw [listFrom_eq_map, subtree_eq]
  walk_eq := List.flatMap_congr fun unit _ => subtree_eq t unit
  listing_eq := t.listing_eq_map
  nodup := nodup_walk t
  mem_iff _ := mem_walk_iff
  length_eq := length_walk t
  parent_first _ _ _ hsplit _ hp := mem_front_of_walk hsplit hp
  grouped := List.flatMap_congr fun unit hunit =>
    (filter_flatMap_subtree ((pairwise_lt_translationUnits t).imp Nat.ne_of_lt)
      (fun _ hd => (mem_translationUnits_iff.1 hd).2) hunit).symm

lemma mem_lineage_iff : x ∈ t.lineage id ↔ x = id ∨ id ∈ t.descendants x := by
  rw [← mem_subtree_iff, subtree_eq, List.mem_cons, eq_comm]

end Bindery.Tree
