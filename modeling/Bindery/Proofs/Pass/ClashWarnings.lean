import Bindery.Proofs.Pass.FirstDeclared
import Bindery.Proofs.Report

/-!
# Every new name is reported once

The pass over clashing names warns of each declaration that it renames, and of nothing else
(`reports_separateAllNames`).

A message is written while names change.  It calls the declaration by its old name, in scopes that
have got their new names already: the walk comes to a scope after all those around it, so no name
around a declaration changes any more (`NamesUnderway.clashMessage_eq`).
-/

namespace Bindery.Tree

variable {t u v : Tree} {taken : List String} {uses : List NameUse} {ids : List Nat}
variable {id scope : Nat}

/-- The warning about a declaration that has been renamed on the way from `t` to `u`: it is called
by its old name, in scopes that have their new ones already. -/
def clashWarning (t u : Tree) (id : Nat) : Message :=
  (u.edit id (.rename (t.decl id).name)).clashMessage id (u.decl id).name

lemma clashMessage_congr (hlineage : u.lineage id = t.lineage id)
    (hsame : ∀ e ∈ t.lineage id, (u.decl e).kind = (t.decl e).kind ∧
      (u.decl e).name = (t.decl e).name) (fresh : String) :
    u.clashMessage id fresh = t.clashMessage id fresh := by
  rw [clashMessage, clashMessage, qualifiedName_congr hlineage hsame,
    (hsame id (mem_lineage_self t id)).1]

lemma log_separateNames_cons (taken : List String) (uses : List NameUse) (id : Nat)
    (ids : List Nat) (t : Tree) :
    (separateNames taken uses (id :: ids) t).log =
      if ∃ a ∈ uses, a.clashes (t.useAt id) = true then
        t.clashMessage id (freshName taken (t.decl id).name) ::
          (separateNames (freshName taken (t.decl id).name :: taken)
            ({ t.useAt id with name := freshName taken (t.decl id).name } :: uses) ids
            (t.edit id (.rename (freshName taken (t.decl id).name)))).log
      else (separateNames taken (t.useAt id :: uses) ids t).log := by
  rw [separateNames_cons_eq, apply_ite Progress.log]
  rfl

/-- Going through declarations that do not lie in each other, what is renamed is reported, and is
called by the name it has had. -/
lemma log_separateNames (hready : t.ReadyFor taken ids)
    (hapart : ids.Pairwise fun a b => a ∉ t.lineage b)
    (hu : (separateNames taken uses ids t).tree = u) :
    (separateNames taken uses ids t).log =
      (ids.filter fun id => (u.decl id).name ≠ (t.decl id).name).map fun id =>
        t.clashMessage id (u.decl id).name := by
  induction ids generalizing taken uses t with
  | nil => rfl
  | cons id ids ih =>
    obtain ⟨hfirst, hapart⟩ := List.pairwise_cons.1 hapart
    have hname := name_separateNames_cons hready hu
    rw [tree_separateNames_cons] at hu
    rw [log_separateNames_cons]
    split at hu
    · next hclash =>
      rw [if_pos hclash] at hname ⊢
      have hfresh : (u.decl id).name ∉ taken := hname ▸ freshName_not_mem taken _
      have hne : (u.decl id).name ≠ (t.decl id).name :=
        (ne_of_mem_of_not_mem (hready.name_mem id List.mem_cons_self) hfresh).symm
      rw [ih (hready.rename _) (by simpa using hapart) hu, List.filter_cons,
        if_pos (decide_eq_true hne), List.map_cons, hname]
      -- the others have been as they are, and are not called by the name that has changed
      have hdecl {i : Nat} (hi : id ≠ i) (fresh : String) :
          (t.edit id (.rename fresh)).decl i = t.decl i := decl_edit_of_ne hi _
      have hids : ∀ i ∈ ids, id ≠ i := fun i hi => (ne_of_mem_of_not_mem hi hready.not_mem).symm
      refine congrArg _ ?_
      rw [List.filter_congr fun i hi => by rw [hdecl (hids i hi)]]
      refine List.map_congr_left fun i hi => clashMessage_congr (lineage_edit t id _ i) ?_ _
      intro e he
      have hfar : id ≠ e := fun heq => hfirst i (List.mem_filter.1 hi).1 (heq ▸ he)
      rw [hdecl hfar]
      exact ⟨rfl, rfl⟩
    · next hclash =>
      rw [if_neg hclash] at hname ⊢
      rw [ih hready.tail hapart hu, List.filter_cons, if_neg (by simp [hname])]

/-- The declarations of a scope that have another name in `u`. -/
def renamedIn (t u : Tree) (scope : Nat) : List Nat :=
  (t.namedChildren scope).filter fun id => (u.decl id).name ≠ (t.decl id).name

lemma log_separateNamesIn (t : Tree) (scope : Nat) : (t.separateNamesIn scope).log =
    (t.renamedIn (t.separateNamesIn scope).tree scope).map fun id =>
      t.clashMessage id ((t.separateNamesIn scope).tree.decl id).name := by
  refine log_separateNames (t.readyFor_namedChildren scope) ?_ rfl
  refine (t.readyFor_namedChildren scope).sorted.imp_of_mem fun {a b} ha hb hlt hmem => ?_
  have hparents : t.parent? a = t.parent? b :=
    (mem_namedChildren_iff.1 ha).1.trans (mem_namedChildren_iff.1 hb).1.symm
  exact Nat.ne_of_lt hlt (eq_of_mem_lineage hmem (mem_lineage_self t b) hparents)

/-- A tree on the way to `u` when only the scopes in `ids` are still to come: no declaration in them
has another name yet, and none lies in one that comes later. -/
structure NamesUnderway (t u : Tree) (ids : List Nat) (v : Tree) : Prop where
  leads : (Progress.sweep separateNamesIn ids v).tree = u
  keeps : t.Develops [.name] v ∧ v.size = t.size
  same : ∀ scope ∈ ids, ∀ i, t.parent? i = some scope → v.decl i = t.decl i
  outward : ids.Pairwise fun a b => b ∉ t.lineage a

/-- What lies in none of the scopes that are still to come has got its name. -/
lemma NamesUnderway.decl_eq (h : t.NamesUnderway u ids v) {i : Nat}
    (hi : ∀ scope, t.parent? i = some scope → scope ∉ ids) : u.decl i = v.decl i := by
  rw [← h.leads]
  refine (Progress.sweep_invariant (I := fun w => (t.Develops [.name] w ∧ w.size = t.size) ∧
    w.decl i = v.decl i) (fun scope hscope w hw => ⟨separateNamesIn_keeps hw.1 scope, ?_⟩)
    ⟨h.keeps, rfl⟩).2
  rw [decl_separateNamesIn_of_parent?_ne, hw.2]
  rw [hw.1.1.parent?_eq_of_size_eq hw.1.2]
  exact fun heq => hi scope heq hscope

lemma NamesUnderway.step (h : t.NamesUnderway u (scope :: ids) v) :
    t.NamesUnderway u ids (v.separateNamesIn scope).tree where
  leads := h.leads
  keeps := separateNamesIn_keeps h.keeps scope
  same scope' hscope' i hi := by
    have hne : scope' ≠ scope := by
      rintro rfl
      exact (List.pairwise_cons.1 h.outward).1 _ hscope' (mem_lineage_self t _)
    rw [decl_separateNamesIn_of_parent?_ne, h.same scope' (List.mem_cons_of_mem _ hscope') i hi]
    rw [h.keeps.1.parent?_eq_of_size_eq h.keeps.2, hi]
    exact fun heq => hne (Option.some.inj heq)
  outward := h.outward.tail

theorem NamesUnderway.clashMessage_eq (h : t.NamesUnderway u (scope :: ids) v) {i : Nat}
    (hi : t.parent? i = some scope) :
    v.clashMessage i (u.decl i).name = t.clashWarning u i := by
  have hlt := lt_size_of_parent? hi
  have hu : t.Develops [.name] u ∧ u.size = t.size := by
    rw [← h.leads]
    exact Progress.sweep_invariant (I := fun w => t.Develops [.name] w ∧ w.size = t.size)
      (fun scope _ _ hw => separateNamesIn_keeps hw scope) h.keeps
  have hlineage : v.lineage i = u.lineage i :=
    (h.keeps.1.lineage_eq hlt).trans (hu.1.lineage_eq hlt).symm
  refine clashMessage_congr (hlineage.trans (lineage_edit u i _ i).symm) (fun e he => ?_) _
  rw [lineage_edit, hu.1.lineage_eq hlt] at he
  by_cases heq : i = e
  · rw [← heq, decl_edit, if_pos ⟨rfl, hu.2 ▸ hlt⟩, h.same scope List.mem_cons_self i hi]
    exact ⟨(hu.1.kind_eq hlt).symm, rfl⟩
  · -- a scope around this one has been gone through
    rw [decl_edit_of_ne heq, h.decl_eq]
    · exact ⟨rfl, rfl⟩
    rw [lineage_of_parent? hi, List.mem_cons] at he
    have he := he.resolve_left (Ne.symm heq)
    intro p hp hmem
    rcases List.mem_cons.1 hmem with rfl | hmem
    · exact Nat.not_lt_of_le (le_of_mem_lineage he) (parent?_lt hp)
    · exact (List.pairwise_cons.1 h.outward).1 p hmem
        (mem_lineage_trans (mem_lineage_of_parent? hp) he)

lemma log_separateAllNames (t : Tree) : t.separateAllNames.log =
    (t.walk.filter fun id => !(t.children id).isEmpty).flatMap fun scope =>
      (t.renamedIn t.separateAllNames.tree scope).map (t.clashWarning t.separateAllNames.tree) := by
  refine Progress.log_sweep (I := t.NamesUnderway t.separateAllNames.tree) (fun scope ids v h => ?_)
    ⟨rfl, ⟨.refl _ t, rfl⟩, fun _ _ _ _ => rfl, t.pairwise_walk.filter _⟩
  refine ⟨?_, h.step⟩
  have hafter : ∀ i ∈ t.namedChildren scope,
      (v.separateNamesIn scope).tree.decl i = t.separateAllNames.tree.decl i := by
    intro i hi
    refine (h.step.decl_eq fun scope' hscope' hmem => ?_).symm
    obtain rfl := Option.some.inj (hscope'.symm.trans (mem_namedChildren_iff.1 hi).1)
    exact (List.pairwise_cons.1 h.outward).1 _ hmem (mem_lineage_self t _)
  have hsame : ∀ i ∈ t.namedChildren scope, v.decl i = t.decl i :=
    fun i hi => h.same scope List.mem_cons_self i (mem_namedChildren_iff.1 hi).1
  have hrenamed : v.renamedIn (v.separateNamesIn scope).tree scope =
      t.renamedIn t.separateAllNames.tree scope := by
    rw [renamedIn, renamedIn, namedChildren_of_develops h.keeps.1 h.keeps.2]
    exact List.filter_congr fun i hi => by rw [hafter i hi, hsame i hi]
  rw [log_separateNamesIn, hrenamed]
  refine List.map_congr_left fun i hi => ?_
  have hmem := (List.mem_filter.1 hi).1
  rw [hafter i hmem, h.clashMessage_eq (mem_namedChildren_iff.1 hmem).1]

lemma mem_renamedIn_iff {u : Tree} : id ∈ t.renamedIn u scope ↔
    id ∈ t.namedChildren scope ∧ (u.decl id).name ≠ (t.decl id).name := by
  rw [renamedIn, List.mem_filter, decide_eq_true_eq]

/-- What is renamed is reported, and nothing else is. -/
theorem reports_separateAllNames (t : Tree) :
    Reports {id | (t.separateAllNames.tree.decl id).name ≠ (t.decl id).name}
      (t.clashWarning t.separateAllNames.tree) t.separateAllNames.log := by
  rw [log_separateAllNames]
  refine Reports.flatMap (t.nodup_walk.filter _)
    (fun scope => ((nodup_children t scope).filter _).filter _) (fun a b id ha hb => ?_)
    (fun id => ⟨fun hne => ?_, ?_⟩) _
  · have hparent := (mem_namedChildren_iff.1 (mem_renamedIn_iff.1 ha).1).1
    exact Option.some.inj (hparent.symm.trans
      (mem_namedChildren_iff.1 (mem_renamedIn_iff.1 hb).1).1)
  · -- only a child of a scope is renamed, if it is not kept out
    rw [Set.mem_ofPred_eq] at hne
    cases hparent : t.parent? id with
    | none => exact absurd (congrArg Decl.name (decl_separateAllNames_of_root hparent)) hne
    | some scope =>
      refine ⟨scope, List.mem_filter.2 ⟨mem_walk_iff.2 ?_, ?_⟩, mem_renamedIn_iff.2 ⟨?_, hne⟩⟩
      · exact Nat.lt_trans (parent?_lt hparent) (lt_size_of_parent? hparent)
      · simpa using List.ne_nil_of_mem (mem_children_iff.2 hparent)
      · by_contra hmem
        rw [decl_separateAllNames hparent] at hne
        exact hne (congrArg Decl.name (decl_separateNames_of_not_mem _ _ _ hmem))
  · rintro ⟨scope, -, hmem⟩
    exact (mem_renamedIn_iff.1 hmem).2

end Bindery.Tree
