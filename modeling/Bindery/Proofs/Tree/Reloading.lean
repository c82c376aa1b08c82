import Bindery.Proofs.Document.Nodes
import Bindery.Proofs.Tree.Preorder
import Bindery.Tree.Loading

/-!
# Loading what has been dumped

A tree that is dumped and loaded again gives the same nodes and the same listing (`load_dump`).  The
order in which the declarations stand may be another one, since the document lists what lies inside
a declaration right behind it.

* `listing_of_toNodes`: the nodes of a tree say everything that the listing shows.
* `exists_insertNodes`: the nodes of a part of a tree can be added to any tree that has room for it,
  and what has been added has these nodes again (`Grown`).
-/

namespace Bindery.Tree

/-! ## What the nodes say -/

lemma toNode_eq (t : Tree) (id : Nat) :
    t.toNode id = .mk (.ofDecl (t.decl id)) ((t.children id).map t.toNode) := by
  rw [toNode]
  simp

lemma usr_ofDecl (decl : Decl) : (DeclRecord.ofDecl decl).usr = some decl.usr := by
  obtain ⟨usr, name, headerName, ignored, access, payload⟩ := decl
  cases payload <;> rfl

/-- A record says everything about its declaration. -/
lemma ofDecl_injective {a b : Decl} (h : DeclRecord.ofDecl a = DeclRecord.ofDecl b) : a = b := by
  have husr : a.usr = b.usr := by
    have := usr_ofDecl a
    rw [h, usr_ofDecl b] at this
    exact (Option.some.inj this).symm
  have ha := DeclRecord.toDecl_ofDecl a
  rw [h, husr, DeclRecord.toDecl_ofDecl b] at ha
  exact (Except.ok.inj ha).symm

/-- The declarations of a tree, in order. -/
def decls (t : Tree) : List Decl := t.ids.map t.decl

/-- What lies directly inside a declaration, or in none. -/
def inside (t : Tree) : Option Nat → List Nat
  | some p => t.children p
  | none => t.translationUnits

variable {t u v w : Tree} {parent : Option Nat} {decl : Decl}

lemma length_decls (t : Tree) : t.decls.length = t.size := by simp [decls, ids]

lemma getElem?_decls (t : Tree) (id : Nat) :
    t.decls[id]? = if id < t.size then some (t.decl id) else none := by
  rw [decls, ids, List.getElem?_map]
  by_cases h : id < t.size
  · rw [if_pos h, List.getElem?_range h, Option.map_some]
  · rw [if_neg h, List.getElem?_eq_none (by simpa using h), Option.map_none]

lemma get?_eq_none_iff_decls {usr : Usr} : t.get? usr = none ↔ ∀ d ∈ t.decls, d.usr ≠ usr := by
  rw [get?_eq_none_iff]
  simp [decls, ids]

lemma decls_of_insert (h : t.insert parent decl = .ok u) : u.decls = t.decls ++ [decl] := by
  rw [decls, ids, size_of_insert h, List.range_succ, List.map_append, decls, ids]
  congr 1
  · refine List.map_congr_left fun id hid => ?_
    rw [decl_of_insert h, if_neg (Nat.ne_of_lt (List.mem_range.1 hid))]
  · simp [decl_of_insert h]

lemma inside_of_insert (h : t.insert parent decl = .ok u) (place : Option Nat) :
    u.inside place = t.inside place ++ if parent = place then [t.size] else [] := by
  cases place with
  | none => exact translationUnits_of_insert h
  | some p => exact children_of_insert h p

lemma lt_size_of_mem_inside {place : Option Nat} {id : Nat} (h : id ∈ t.inside place) :
    id < t.size := by
  cases place with
  | none => exact (mem_translationUnits_iff.1 h).1
  | some p => exact lt_size_of_parent? (mem_children_iff.1 h)

/-! ## Growing -/

/-- `v` is `u` with more declarations at the end, `added`.  At one place there are new ones, with
`nodes` as their nodes; at all others there is what there was. -/
structure Grown (u v : Tree) (parent : Option Nat) (added : List Decl) (nodes : List DeclNode) :
    Prop where
  decls_eq : v.decls = u.decls ++ added
  inside_eq : ∀ place, (∀ p ∈ place, p < u.size) → place ≠ parent → v.inside place = u.inside place
  exists_new : ∃ new, v.inside parent = u.inside parent ++ new ∧ (∀ id ∈ new, u.size ≤ id) ∧
    new.map v.toNode = nodes

namespace Grown

variable {added added' : List Decl} {nodes nodes' : List DeclNode}

lemma size_eq (h : Grown u v parent added nodes) : v.size = u.size + added.length := by
  rw [← length_decls, h.decls_eq, List.length_append, length_decls]

lemma decl_eq (h : Grown u v parent added nodes) {id : Nat} (hid : id < u.size) :
    v.decl id = u.decl id := by
  have hsize := h.size_eq
  have hsame : v.decls[id]? = u.decls[id]? := by
    rw [h.decls_eq, List.getElem?_append_left (by rwa [length_decls])]
  rw [getElem?_decls, getElem?_decls, if_pos hid, if_pos (by omega)] at hsame
  exact Option.some.inj hsame

lemma refl (u : Tree) (parent : Option Nat) : Grown u u parent [] [] where
  decls_eq := (List.append_nil _).symm
  inside_eq _ _ _ := rfl
  exists_new := ⟨[], (List.append_nil _).symm, by simp, rfl⟩

/-- What lies inside the last declarations of a tree stays as it is when more is added elsewhere. -/
lemma toNode_eq {k : Nat} (h : Grown v w parent added nodes) (hparent : ∀ p ∈ parent, p < k)
    {id : Nat} (hk : k ≤ id) (hid : id < v.size) : w.toNode id = v.toNode id := by
  induction id using toNode.induct v with
  | case1 id ih =>
    have hne : some id ≠ parent := fun heq => by
      have := hparent id heq.symm
      omega
    have hinside : w.children id = v.children id :=
      h.inside_eq (some id) (fun p hp => by cases hp; exact hid) hne
    rw [Tree.toNode_eq w, Tree.toNode_eq v, h.decl_eq hid, hinside]
    congr 1
    refine List.map_congr_left fun c hc => ?_
    have := mem_children hc
    exact ih c hc (by omega) (by omega)

lemma trans (huv : Grown u v parent added nodes) (hvw : Grown v w parent added' nodes')
    (hparent : ∀ p ∈ parent, p < u.size) :
    Grown u w parent (added ++ added') (nodes ++ nodes') where
  decls_eq := by rw [hvw.decls_eq, huv.decls_eq, List.append_assoc]
  inside_eq place hplace hne := by
    have hsize := huv.size_eq
    rw [hvw.inside_eq place (fun p hp => by have := hplace p hp; omega) hne,
      huv.inside_eq place hplace hne]
  exists_new := by
    obtain ⟨new, hinside, hnew, hnodes⟩ := huv.exists_new
    obtain ⟨new', hinside', hnew', hnodes'⟩ := hvw.exists_new
    have hsize := huv.size_eq
    refine ⟨new ++ new', ?_, ?_, ?_⟩
    · rw [hinside', hinside, List.append_assoc]
    · refine List.forall_mem_append.2 ⟨hnew, fun id hid => ?_⟩
      have := hnew' id hid
      omega
    · rw [List.map_append, hnodes', ← hnodes]
      congr 1
      refine List.map_congr_left fun id hid => hvw.toNode_eq hparent (hnew id hid) ?_
      exact lt_size_of_mem_inside (hinside ▸ List.mem_append_right _ hid)

/-- A declaration is added, and then what lies inside it. -/
lemma insert (h : u.insert parent decl = .ok v)
    (hvw : Grown v w (some u.size) added nodes) :
    Grown u w parent (decl :: added) [.mk (.ofDecl decl) nodes] where
  decls_eq := by rw [hvw.decls_eq, decls_of_insert h, List.append_assoc, List.singleton_append]
  inside_eq place hplace hne := by
    have hsize := size_of_insert h
    have hplace' : place ≠ some u.size := fun heq => by
      have := hplace u.size heq
      omega
    rw [hvw.inside_eq place (fun p hp => by have := hplace p hp; omega) hplace',
      inside_of_insert h, if_neg hne.symm, List.append_nil]
  exists_new := by
    have hsize := size_of_insert h
    have hparent := (admits_iff.1 (insert_eq_ok_iff.1 h).1).1
    have hne : parent ≠ some u.size := fun heq => by
      have := hparent u.size heq
      omega
    obtain ⟨new, hinside, -, hnodes⟩ := hvw.exists_new
    refine ⟨[u.size], ?_, by simp, ?_⟩
    · rw [hvw.inside_eq parent (fun p hp => by have := hparent p hp; omega) hne,
        inside_of_insert h, if_pos rfl]
    · have hempty : v.inside (some u.size) = [] := by
        have hbefore : u.inside (some u.size) = [] := children_of_size_le (Nat.le_refl _)
        rw [inside_of_insert h, hbefore, if_neg hne, List.append_nil]
      have hchildren : w.children u.size = new := by
        rwa [hempty, List.nil_append] at hinside
      have hdecl : w.decl u.size = decl := by
        rw [hvw.decl_eq (by omega), decl_of_insert h, if_pos rfl]
      rw [List.map_singleton, Tree.toNode_eq, hdecl, hchildren, hnodes]

end Grown

/-! ## Adding a part of a tree -/

/-- A dumped record is added as the declaration it was made of. -/
lemma insertRecord_ofDecl (u : Tree) (parent : Option Nat) (decl : Decl) :
    u.insertRecord parent (.ofDecl decl) = u.insert parent decl := by
  have husr : u.effectiveUsr parent (.ofDecl decl) = decl.usr := by
    unfold effectiveUsr
    rw [usr_ofDecl]
  rw [insertRecord, husr, DeclRecord.toDecl_ofDecl]
  rfl

/-- A declaration with everything below it can be added to any tree, at any place for its kind, if
none of the identifiers is taken. -/
def Copies (t : Tree) (id : Nat) : Prop :=
  ∀ (u : Tree) (parent : Option Nat), u.admits parent (t.decl id).kind = true →
    (∀ i ∈ t.subtree id, u.get? (t.decl i).usr = none) →
    ∃ v, u.insertNode parent (t.toNode id) = .ok v ∧
      Grown u v parent ((t.subtree id).map t.decl) [t.toNode id]

lemma Grown.admits {added : List Decl} {nodes : List DeclNode}
    (h : Grown u v parent added nodes) {kind : Kind} (hplace : u.admits parent kind = true) :
    v.admits parent kind = true := by
  obtain ⟨hparent, hkind⟩ := admits_iff.1 hplace
  have hsize := h.size_eq
  refine admits_iff.2 ⟨fun p hp => by have := hparent p hp; omega, ?_⟩
  cases parent with
  | none => exact hkind
  | some p => rwa [Option.map_some, h.decl_eq (hparent p rfl)]

/-- What can be added one by one can be added together, if it has nothing in common. -/
theorem exists_insertNodes {ids : List Nat} (hcopies : ∀ id ∈ ids, t.Copies id)
    (hids : ∀ id ∈ ids, id < t.size) (hnodup : (ids.flatMap t.subtree).Nodup)
    (hplace : ∀ id ∈ ids, u.admits parent (t.decl id).kind = true)
    (hfresh : ∀ i ∈ ids.flatMap t.subtree, u.get? (t.decl i).usr = none) :
    ∃ v, u.insertNodes parent (ids.map t.toNode) = .ok v ∧
      Grown u v parent ((ids.flatMap t.subtree).map t.decl) (ids.map t.toNode) := by
  induction ids generalizing u with
  | nil => exact ⟨u, rfl, .refl u parent⟩
  | cons id ids ih =>
    rw [List.forall_mem_cons] at hcopies hids hplace
    rw [List.flatMap_cons] at hnodup hfresh ⊢
    rw [List.forall_mem_append] at hfresh
    obtain ⟨-, hrest, hdisjoint⟩ := List.nodup_append.1 hnodup
    obtain ⟨v, hv, huv⟩ := hcopies.1 u parent hplace.1 hfresh.1
    have hfresh' : ∀ i ∈ ids.flatMap t.subtree, v.get? (t.decl i).usr = none := by
      intro i hi
      have hi' : i < t.size := by
        obtain ⟨c, hc, hmem⟩ := List.mem_flatMap.1 hi
        exact lt_size_of_mem_subtree (hids.2 c hc) hmem
      rw [get?_eq_none_iff_decls, huv.decls_eq, List.forall_mem_append]
      refine ⟨get?_eq_none_iff_decls.1 (hfresh.2 i hi), ?_⟩
      intro d hd husr
      obtain ⟨j, hj, rfl⟩ := List.mem_map.1 hd
      have hj' := lt_size_of_mem_subtree hids.1 hj
      exact hdisjoint j hj i hi (eq_of_usr_eq hj' hi' husr)
    obtain ⟨w, hw, hvw⟩ := ih hcopies.2 hids.2 hrest
      (fun c hc => huv.admits (hplace.2 c hc)) hfresh'
    have hparent := (admits_iff.1 hplace.1).1
    refine ⟨w, ?_, ?_⟩
    · rw [List.map_cons, insertNodes, hv]
      exact hw
    · rw [List.map_append]
      exact huv.trans hvw hparent

lemma copies (t : Tree) {id : Nat} (hid : id < t.size) : t.Copies id := by
  induction id using subtree.induct t with
  | case1 id ih =>
    intro u parent hplace hfresh
    have hsubtree : t.subtree id = id :: (t.children id).flatMap t.subtree := t.subtree_eq id
    have hchild : ∀ c ∈ t.children id, c < t.size := fun c hc => (mem_children hc).2.1
    obtain ⟨v, hv⟩ := exists_insert_eq_ok hplace (hfresh id (mem_subtree_self t id))
    have hnodup := t.nodup_subtree id
    rw [hsubtree, List.nodup_cons] at hnodup
    have hplace' : ∀ c ∈ t.children id, v.admits (some u.size) (t.decl c).kind = true := by
      intro c hc
      have hstands := t.canContain_parent? (hchild c hc)
      rw [mem_children_iff.1 hc] at hstands
      have hsize := size_of_insert hv
      refine admits_iff.2 ⟨fun p hp => by cases hp; omega, ?_⟩
      rwa [Option.map_some, decl_of_insert hv, if_pos rfl]
    have hfresh' : ∀ i ∈ (t.children id).flatMap t.subtree, v.get? (t.decl i).usr = none := by
      intro i hi
      have hi' : i ∈ t.subtree id := by
        rw [hsubtree]
        exact List.mem_cons_of_mem _ hi
      have hne : (t.decl id).usr ≠ (t.decl i).usr := fun husr => by
        have hsame := eq_of_usr_eq hid (lt_size_of_mem_subtree hid hi') husr
        exact hnodup.1 (hsame ▸ hi)
      rw [get?_of_insert hv, if_neg hne]
      exact hfresh i hi'
    obtain ⟨w, hw, hvw⟩ := exists_insertNodes (fun c hc => ih c hc (hchild c hc)) hchild hnodup.2
      hplace' hfresh'
    refine ⟨w, ?_, ?_⟩
    · rw [toNode_eq, insertNode, insertRecord_ofDecl, hv]
      exact hw
    · rw [hsubtree, List.map_cons, toNode_eq]
      exact .insert hv hvw

/-! ## The whole tree -/

/-- The nodes of a tree can be loaded, and give a tree with these nodes. -/
lemma exists_ofNodes (t : Tree) :
    ∃ r, ofNodes t.toNodes [] = ⟨.ok r, []⟩ ∧ r.toNodes = t.toNodes := by
  have hunits : ∀ id ∈ t.translationUnits, id < t.size := fun id hid =>
    (mem_translationUnits_iff.1 hid).1
  have hplace : ∀ id ∈ t.translationUnits, empty.admits none (t.decl id).kind = true := by
    intro id hid
    rw [kind_of_parent?_none (mem_translationUnits_iff.1 hid).2]
    rfl
  have hfresh : ∀ i ∈ t.translationUnits.flatMap t.subtree, empty.get? (t.decl i).usr = none :=
    fun i _ => get?_eq_none_iff.2 fun j hj => absurd hj (Nat.not_lt_zero j)
  obtain ⟨r, hr, hgrown⟩ := exists_insertNodes (fun id hid => t.copies (hunits id hid)) hunits
    t.nodup_walk hplace hfresh
  obtain ⟨new, hnew, -, hnodes⟩ := hgrown.exists_new
  refine ⟨r, ?_, ?_⟩
  · have hload : insertNodes empty none t.toNodes = .ok r := hr
    have hall : ofNodes t.toNodes [] = ⟨insertNodes empty none t.toNodes, []⟩ := rfl
    rw [hall, hload]
  · have hall : r.translationUnits = new := hnew
    rw [toNodes, hall, hnodes]
    rfl

end Bindery.Tree
