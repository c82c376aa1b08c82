import Bindery.Proofs.Pass.DuplicateNames
import Bindery.Proofs.Tree.Alike
import Mathlib.Order.Bounds.Basic

/-!
# The first declared keeps its name

What the pass over clashing names does to a declaration can be told from the names before and after:
it is renamed exactly if an earlier sibling keeps its own name and has a claim to the same one
(`HasRival`), and its new name has the least number that no sibling has had and no earlier one has
been given (`freeNumbers`).

Going through a scope, the lists of taken names and of uses grow with every declaration.  One step
(`exists_separateNames_cons`) adds the name that the declaration is left with to the names taken, and
to the uses no more than a declaration that keeps its name: a fresh name clashes with none that is
still to come.  A whole run then follows by induction over the scope (`name_ne_separateNames_iff`,
`exists_number_separateNames`).

Scopes do not see each other, since each looks at the names of its own children and changes no
others (`decl_separateAllNames`).
-/

namespace Bindery

/-- Two functions or methods with different parameters, which may share a name. -/
def Decl.IsOverloadOf (a b : Decl) : Prop :=
  ∃ s s', a.signature? = some s ∧ b.signature? = some s' ∧ s.overloadKey ≠ s'.overloadKey

lemma NameUse.clashes_ofDecl_iff {a b : Decl} :
    (ofDecl a).clashes (ofDecl b) = true ↔ a.name = b.name ∧ ¬ a.IsOverloadOf b := by
  rw [← Bool.not_eq_false, clashes_eq_false_iff, Classical.not_imp]
  refine and_congr_right fun _ => not_congr ?_
  simp only [ofDecl, Option.map_eq_some_iff, Decl.IsOverloadOf]
  constructor
  · rintro ⟨_, _, ⟨s, hs, rfl⟩, ⟨s', hs', rfl⟩, hne⟩
    exact ⟨s, s', hs, hs', hne⟩
  · rintro ⟨s, s', hs, hs', hne⟩
    exact ⟨_, _, ⟨s, hs, rfl⟩, ⟨s', hs', rfl⟩, hne⟩

namespace Tree

variable {t t' u u' : Tree} {taken : List String} {uses : List NameUse} {ids : List Nat} {c : Nat}

/-! ## Rivals and numbers -/

/-- A sibling before `c` keeps the name that `c` has had, and the two cannot share it. -/
def HasRival (t u : Tree) (siblings : List Nat) (c : Nat) : Prop :=
  ∃ b ∈ siblings, b < c ∧ (u.decl b).name = (t.decl b).name ∧
    (t.decl b).name = (t.decl c).name ∧ ¬ (t.decl b).IsOverloadOf (t.decl c)

/-- The numbers, from one on, that are free for `c`: no sibling has had the name with that number,
and no sibling before `c` has been given it. -/
def freeNumbers (t u : Tree) (siblings : List Nat) (c : Nat) : Set Nat :=
  {k | 1 ≤ k ∧ ∀ b ∈ siblings, (t.decl b).name ≠ numberedName (t.decl c).name k ∧
    (b < c → (u.decl b).name ≠ numberedName (t.decl c).name k)}

lemma hasRival_congr (hc : c ∈ ids) (ht : ∀ b ∈ ids, t'.decl b = t.decl b)
    (hu : ∀ b ∈ ids, u'.decl b = u.decl b) : HasRival t' u' ids c ↔ HasRival t u ids c := by
  unfold HasRival
  refine exists_congr fun b => and_congr_right fun hb => ?_
  rw [ht b hb, ht c hc, hu b hb]

lemma freeNumbers_congr (hu : ∀ b ∈ ids, u'.decl b = u.decl b) :
    freeNumbers t u' ids c = freeNumbers t u ids c := by
  unfold freeNumbers
  ext k
  refine and_congr_right fun _ => forall₂_congr fun b hb => ?_
  rw [hu b hb]

lemma hasRival_cons_iff {id : Nat} (hid : id < c) :
    HasRival t u (id :: ids) c ↔
      ((u.decl id).name = (t.decl id).name ∧ (t.useAt id).clashes (t.useAt c) = true) ∨
        HasRival t u ids c := by
  rw [useAt, useAt, NameUse.clashes_ofDecl_iff]
  simp only [HasRival, List.mem_cons, exists_eq_or_imp, hid, true_and]

lemma not_hasRival_of_forall_le (h : ∀ b ∈ ids, c ≤ b) : ¬ HasRival t u ids c := by
  rintro ⟨b, hb, hlt, -⟩
  exact absurd (h b hb) (Nat.not_le_of_lt hlt)

/-! ## Going through one scope -/

/-- Declarations of a scope that are still to come, in order; their names cannot be given out. -/
structure ReadyFor (t : Tree) (taken : List String) (ids : List Nat) : Prop where
  sorted : ids.Pairwise (· < ·)
  lt_size : ∀ id ∈ ids, id < t.size
  name_mem : ∀ id ∈ ids, (t.decl id).name ∈ taken

section Ready

variable {id : Nat} (hready : t.ReadyFor taken (id :: ids))

include hready

lemma ReadyFor.lt_of_mem {i : Nat} (hi : i ∈ ids) : id < i :=
  (List.pairwise_cons.1 hready.sorted).1 i hi

lemma ReadyFor.not_mem : id ∉ ids := fun h => Nat.lt_irrefl id (hready.lt_of_mem h)

lemma ReadyFor.le_of_mem : ∀ i ∈ id :: ids, id ≤ i :=
  List.forall_mem_cons.2 ⟨Nat.le_refl id, fun _ hi => Nat.le_of_lt (hready.lt_of_mem hi)⟩

lemma ReadyFor.tail : t.ReadyFor taken ids where
  sorted := hready.sorted.tail
  lt_size i hi := hready.lt_size i (List.mem_cons_of_mem _ hi)
  name_mem i hi := hready.name_mem i (List.mem_cons_of_mem _ hi)

lemma ReadyFor.rename (fresh : String) :
    (t.edit id (.rename fresh)).ReadyFor (fresh :: taken) ids where
  sorted := hready.sorted.tail
  lt_size i hi := by simpa using hready.lt_size i (List.mem_cons_of_mem _ hi)
  name_mem i hi := by
    rw [decl_edit_of_ne (ne_of_mem_of_not_mem hi hready.not_mem).symm]
    exact List.mem_cons_of_mem _ (hready.name_mem i (List.mem_cons_of_mem _ hi))

end Ready

lemma tree_separateNames_cons (taken : List String) (uses : List NameUse) (id : Nat)
    (ids : List Nat) (t : Tree) :
    (separateNames taken uses (id :: ids) t).tree =
      if ∃ a ∈ uses, a.clashes (t.useAt id) = true then
        (separateNames (freshName taken (t.decl id).name :: taken)
          ({ t.useAt id with name := freshName taken (t.decl id).name } :: uses) ids
          (t.edit id (.rename (freshName taken (t.decl id).name)))).tree
      else (separateNames taken (t.useAt id :: uses) ids t).tree := by
  obtain ⟨log, h⟩ := separateNames_cons taken uses id ids t
  rw [h, apply_ite Progress.tree]
  rfl

lemma name_separateNames_cons {id : Nat} (hready : t.ReadyFor taken (id :: ids))
    (hu : (separateNames taken uses (id :: ids) t).tree = u) :
    (u.decl id).name =
      if ∃ a ∈ uses, a.clashes (t.useAt id) = true then freshName taken (t.decl id).name
      else (t.decl id).name := by
  have hlt : id < t.size := hready.lt_size id List.mem_cons_self
  rw [← hu, tree_separateNames_cons]
  split
  · rw [decl_separateNames_of_not_mem _ _ _ hready.not_mem, decl_edit, if_pos ⟨rfl, hlt⟩]
    rfl
  · rw [decl_separateNames_of_not_mem _ _ _ hready.not_mem]

/-- One step: the rest of the scope is gone through with the name that the first declaration is left
with among those taken.  Of the uses whose names were taken, more clash than before only if the
first declaration keeps its name. -/
theorem exists_separateNames_cons {id : Nat} (hready : t.ReadyFor taken (id :: ids))
    (hu : (separateNames taken uses (id :: ids) t).tree = u) :
    ∃ taken' uses' t', (separateNames taken' uses' ids t').tree = u ∧ t'.ReadyFor taken' ids ∧
      (∀ i ∈ ids, t'.decl i = t.decl i) ∧
      (∀ name, name ∈ taken' ↔ name ∈ taken ∨ (u.decl id).name = name) ∧
      ∀ use : NameUse, use.name ∈ taken → ((∃ a ∈ uses', a.clashes use = true) ↔
        (∃ a ∈ uses, a.clashes use = true) ∨
          ((u.decl id).name = (t.decl id).name ∧ (t.useAt id).clashes use = true)) := by
  have hleft := name_separateNames_cons hready hu
  have hname := hready.name_mem id List.mem_cons_self
  rw [tree_separateNames_cons] at hu
  split at hu
  · next hclash =>
    rw [if_pos hclash] at hleft
    have hfresh := freshName_not_mem taken (t.decl id).name
    have hne : (u.decl id).name ≠ (t.decl id).name := fun heq => hfresh (hleft ▸ heq ▸ hname)
    have hdecl : ∀ i ∈ ids,
        (t.edit id (.rename (freshName taken (t.decl id).name))).decl i = t.decl i :=
      fun i hi => decl_edit_of_ne (ne_of_mem_of_not_mem hi hready.not_mem).symm _
    refine ⟨_, _, _, hu, hready.rename _, hdecl, fun name => ?_, fun use huse => ?_⟩
    · rw [hleft, List.mem_cons, or_comm, eq_comm]
    · have hapart : NameUse.clashes { t.useAt id with name := freshName taken (t.decl id).name }
          use = false := by
        refine NameUse.clashes_eq_false_of_name_ne fun heq => hfresh ?_
        rwa [← show freshName taken (t.decl id).name = use.name from heq] at huse
      simp [hapart, hne]
  · next hclash =>
    rw [if_neg hclash] at hleft
    refine ⟨_, _, _, hu, hready.tail, fun _ _ => rfl, fun name => ?_, fun use _ => ?_⟩
    · rw [hleft]
      exact ⟨.inl, fun h => h.elim (fun hmem => hmem) fun heq => heq ▸ hname⟩
    · simp [hleft, or_comm]

/-- A declaration is renamed exactly if it clashes with an earlier use, or with an earlier sibling
that keeps its name. -/
theorem name_ne_separateNames_iff (hready : t.ReadyFor taken ids)
    (hu : (separateNames taken uses ids t).tree = u) (hc : c ∈ ids) :
    (u.decl c).name ≠ (t.decl c).name ↔
      (∃ a ∈ uses, a.clashes (t.useAt c) = true) ∨ HasRival t u ids c := by
  induction ids generalizing taken uses t with
  | nil => exact absurd hc List.not_mem_nil
  | cons id ids ih =>
    by_cases hfirst : c = id
    · subst hfirst
      have hfresh := freshName_not_mem taken (t.decl c).name
      have hname := hready.name_mem c List.mem_cons_self
      rw [name_separateNames_cons hready hu, or_iff_left (not_hasRival_of_forall_le hready.le_of_mem)]
      split
      · next hclash =>
        exact ⟨fun _ => hclash, fun _ heq => hfresh (heq.symm ▸ hname)⟩
      · next hclash => exact ⟨fun h => absurd rfl h, fun h => absurd h hclash⟩
    · have hmem : c ∈ ids := (List.mem_cons.1 hc).resolve_left hfirst
      have hname := hready.name_mem c hc
      obtain ⟨taken', uses', t', hu', hready', hdecl, -, huses'⟩ :=
        exists_separateNames_cons hready hu
      have hrest := ih hready' hu' hmem
      rw [hasRival_congr hmem hdecl fun _ _ => rfl, useAt, hdecl c hmem, ← useAt,
        huses' _ hname] at hrest
      rw [hrest, hasRival_cons_iff (hready.lt_of_mem hmem), or_assoc]

/-- A renamed declaration gets the least number whose name is not taken and has not been given to a
sibling before it. -/
theorem exists_number_separateNames (hready : t.ReadyFor taken ids)
    (hu : (separateNames taken uses ids t).tree = u) (hc : c ∈ ids)
    (hne : (u.decl c).name ≠ (t.decl c).name) :
    ∃ k, IsLeast {k | 1 ≤ k ∧ numberedName (t.decl c).name k ∉ taken ∧
        ∀ b ∈ ids, b < c → (u.decl b).name ≠ numberedName (t.decl c).name k} k ∧
      (u.decl c).name = numberedName (t.decl c).name k := by
  induction ids generalizing taken uses t with
  | nil => exact absurd hc List.not_mem_nil
  | cons id ids ih =>
    by_cases hfirst : c = id
    · subst hfirst
      have hleft := name_separateNames_cons hready hu
      obtain ⟨k, hk, hone, hfresh, hleast⟩ := exists_freshName_least taken (t.decl c).name
      split at hleft
      · refine ⟨k, ⟨⟨hone, hfresh, fun b hb hlt => ?_⟩, fun j hj => ?_⟩, hleft.trans hk⟩
        · exact absurd (hready.le_of_mem b hb) (Nat.not_le_of_lt hlt)
        · by_contra hlt
          exact hj.2.1 (hleast j hj.1 (Nat.lt_of_not_le hlt))
      · exact absurd hleft hne
    · have hmem : c ∈ ids := (List.mem_cons.1 hc).resolve_left hfirst
      obtain ⟨taken', uses', t', hu', hready', hdecl, htaken', -⟩ :=
        exists_separateNames_cons hready hu
      have hrest := ih hready' hu' hmem (by rwa [hdecl c hmem])
      -- the name of the first declaration counts as taken from here on
      simpa only [hdecl c hmem, htaken', not_or, List.forall_mem_cons, hready.lt_of_mem hmem,
        forall_const, and_assoc] using hrest

/-- What is made of a declaration depends on the declarations of its scope only. -/
lemma decl_separateNames_congr {i : Nat} (hsize : t'.size = t.size)
    (hids : ∀ j ∈ ids, t'.decl j = t.decl j) (hi : t'.decl i = t.decl i) :
    (separateNames taken uses ids t').tree.decl i = (separateNames taken uses ids t).tree.decl i := by
  induction ids generalizing taken uses t t' with
  | nil => exact hi
  | cons id ids ih =>
    obtain ⟨hid, hids⟩ := List.forall_mem_cons.1 hids
    rw [tree_separateNames_cons, tree_separateNames_cons, useAt, hid, ← useAt]
    split
    · have hedit (edit : Edit) {j : Nat} (hj : t'.decl j = t.decl j) :
          (t'.edit id edit).decl j = (t.edit id edit).decl j := by
        rw [decl_edit, decl_edit, hj, hsize]
      exact ih (by simpa using hsize) (fun j hj => hedit _ (hids j hj)) (hedit _ hi)
    · exact ih hsize hids hi

/-! ## One scope -/

section Scope

variable {scope : Nat}

lemma readyFor_namedChildren (t : Tree) (scope : Nat) :
    t.ReadyFor ((t.namedChildren scope).map fun id => (t.decl id).name) (t.namedChildren scope) where
  sorted := (t.pairwise_lt_children scope).filter _
  lt_size _ hid := lt_size_of_parent? (mem_namedChildren_iff.1 hid).1
  name_mem _ hid := List.mem_map_of_mem hid

lemma name_ne_separateNamesIn_iff (hc : c ∈ t.namedChildren scope) :
    ((t.separateNamesIn scope).tree.decl c).name ≠ (t.decl c).name ↔
      HasRival t (t.separateNamesIn scope).tree (t.namedChildren scope) c :=
  (name_ne_separateNames_iff (t.readyFor_namedChildren scope) rfl hc).trans
    (or_iff_right (by simp))

lemma exists_number_separateNamesIn (hc : c ∈ t.namedChildren scope)
    (hne : ((t.separateNamesIn scope).tree.decl c).name ≠ (t.decl c).name) :
    ∃ k, IsLeast (freeNumbers t (t.separateNamesIn scope).tree (t.namedChildren scope) c) k ∧
      ((t.separateNamesIn scope).tree.decl c).name = numberedName (t.decl c).name k := by
  obtain ⟨k, hleast, hk⟩ :=
    exists_number_separateNames (t.readyFor_namedChildren scope) rfl hc hne
  refine ⟨k, ?_, hk⟩
  simpa only [freeNumbers, separateNamesIn, List.mem_map, not_exists, not_and, imp_and, forall_and,
    ne_eq] using hleast

end Scope

/-! ## All scopes -/

/-- What becomes of a scope does not depend on what has been renamed elsewhere. -/
lemma decl_separateNamesIn_congr {scope : Nat} (hdev : t.Develops [.name] u)
    (hsize : u.size = t.size) (hsame : ∀ i, t.parent? i = some scope → u.decl i = t.decl i) {i : Nat}
    (hi : t.parent? i = some scope) :
    (u.separateNamesIn scope).tree.decl i = (t.separateNamesIn scope).tree.decl i := by
  have hdecl : ∀ c ∈ t.namedChildren scope, u.decl c = t.decl c :=
    fun c hc => hsame c (mem_namedChildren_iff.1 hc).1
  have hnames : ((t.namedChildren scope).map fun c => (u.decl c).name) =
      (t.namedChildren scope).map fun c => (t.decl c).name :=
    List.map_congr_left fun c hc => by rw [hdecl c hc]
  rw [separateNamesIn, separateNamesIn, namedChildren_of_develops hdev hsize, hnames]
  exact decl_separateNames_congr hsize hdecl (hsame i hi)

lemma separateNamesIn_keeps (hu : t.Develops [.name] u ∧ u.size = t.size) (scope : Nat) :
    t.Develops [.name] (u.separateNamesIn scope).tree ∧
      (u.separateNamesIn scope).tree.size = t.size :=
  ⟨hu.1.trans (develops_separateNamesIn u scope), (size_separateNamesIn u scope).trans hu.2⟩

lemma decl_separateNamesIn_of_parent?_ne {scope i : Nat} (hne : t.parent? i ≠ some scope) :
    (t.separateNamesIn scope).tree.decl i = t.decl i :=
  decl_separateNames_of_not_mem _ _ _ fun hmem => hne (mem_namedChildren_iff.1 hmem).1

/-- A scope is gone through as it would be if it were the only one. -/
theorem decl_separateAllNames {scope i : Nat} (hi : t.parent? i = some scope) :
    t.separateAllNames.tree.decl i = (t.separateNamesIn scope).tree.decl i := by
  have hmem : scope ∈ t.walk.filter fun id => !(t.children id).isEmpty := by
    refine List.mem_filter.2 ⟨mem_walk_iff.2 ?_, ?_⟩
    · exact Nat.lt_trans (parent?_lt hi) (lt_size_of_parent? hi)
    · simpa using List.ne_nil_of_mem (mem_children_iff.2 hi)
  rw [separateAllNames, Progress.decl_sweep_of_owner
    (I := fun u => t.Develops [.name] u ∧ u.size = t.size)
    (fun scope i => (t.separateNamesIn scope).tree.decl i)
    (fun u scope hu hsame j hj => decl_separateNamesIn_congr hu.1 hu.2 hsame hj)
    (fun u scope hu _ => separateNamesIn_keeps hu scope)
    (fun u {scope j} hu hne => decl_separateNamesIn_of_parent?_ne ?_)
    (t.nodup_walk.filter _) ⟨.refl _ t, rfl⟩ hi, if_pos hmem]
  rwa [hu.1.parent?_eq_of_size_eq hu.2]

lemma decl_separateAllNames_of_root {i : Nat} (hi : t.parent? i = none) :
    t.separateAllNames.tree.decl i = t.decl i := by
  refine (Progress.sweep_invariant (I := fun u => (t.Develops [.name] u ∧ u.size = t.size) ∧
    u.decl i = t.decl i) (fun scope _ u hu => ⟨separateNamesIn_keeps hu.1 scope, ?_⟩)
    ⟨⟨.refl _ t, rfl⟩, rfl⟩).2
  rw [decl_separateNamesIn_of_parent?_ne, hu.2]
  rw [hu.1.1.parent?_eq_of_size_eq hu.1.2, hi]
  exact (Option.some_ne_none scope).symm

/-- Nothing but the name is changed. -/
lemma decl_eq_of_develops_name (hdev : t.Develops [.name] u) (hsize : u.size = t.size) (i : Nat) :
    u.decl i = { t.decl i with name := (u.decl i).name } := by
  have halike := hdev.alike hsize
  refine Decl.eq_of_shape (halike.shape_eq i) fun field => ?_
  by_cases hfield : field = .name
  · subst hfield
    rfl
  · refine (halike.same field i (by simpa using hfield)).symm.trans ?_
    cases field <;> first | exact absurd rfl hfield | rfl

/-- Of each scope the declarations that are not kept out are given names by the rule of `HasRival`
and `freeNumbers`, as if there were no other scopes; nothing else is renamed, and nothing but names
is changed. -/
theorem separateAllNames_exact (t : Tree) :
    (t.separateAllNames.tree.size = t.size ∧
      ∀ i, t.separateAllNames.tree.parent? i = t.parent? i ∧
        t.separateAllNames.tree.decl i =
          { t.decl i with name := (t.separateAllNames.tree.decl i).name } ∧
        ((t.decl i).ignored = true ∨ t.parent? i = none →
          t.separateAllNames.tree.decl i = t.decl i)) ∧
    ∀ scope, ∀ c ∈ t.namedChildren scope,
      t.separateAllNames.tree.decl c = (t.separateNamesIn scope).tree.decl c ∧
      ((t.separateAllNames.tree.decl c).name ≠ (t.decl c).name ↔
        HasRival t t.separateAllNames.tree (t.namedChildren scope) c) ∧
      ((t.separateAllNames.tree.decl c).name ≠ (t.decl c).name →
        ∃ k, IsLeast (freeNumbers t t.separateAllNames.tree (t.namedChildren scope) c) k ∧
          (t.separateAllNames.tree.decl c).name = numberedName (t.decl c).name k) := by
  have hdev := develops_separateAllNames t
  have hsize := size_separateAllNames t
  refine ⟨⟨hsize, fun i => ⟨hdev.parent?_eq_of_size_eq hsize i,
    decl_eq_of_develops_name hdev hsize i, fun hout => ?_⟩⟩, fun scope c hc => ?_⟩
  · cases hparent : t.parent? i with
    | none => exact decl_separateAllNames_of_root hparent
    | some scope =>
      rw [decl_separateAllNames hparent]
      refine decl_separateNames_of_not_mem _ _ _ fun hmem => ?_
      simp [(mem_namedChildren_iff.1 hmem).2, hparent] at hout
  · have hscope : ∀ b ∈ t.namedChildren scope,
        t.separateAllNames.tree.decl b = (t.separateNamesIn scope).tree.decl b :=
      fun b hb => decl_separateAllNames (mem_namedChildren_iff.1 hb).1
    rw [hasRival_congr hc (fun _ _ => rfl) hscope, freeNumbers_congr hscope, hscope c hc]
    exact ⟨rfl, name_ne_separateNamesIn_iff hc, exists_number_separateNamesIn hc⟩

/-- A class with a property, a method and another property.  The method has the name of the first
property, and the last one has the name that the method would be given; a third property of that name
is kept out. -/
def styleTree : Tree :=
  Tree.empty.changed [
    .insert none (.new ⟨"tu:a.h"⟩ "a.h" .translationUnit),
    .insert (some 0) (.new ⟨"Style"⟩ "Style" (.classType true [])),
    .insert (some 1) (.new ⟨"a"⟩ "Alpha" (.property (.builtin "float") false)),
    .insert (some 1) (.new ⟨"m"⟩ "Alpha" (.method (.plain ⟨.void, [], false⟩))),
    .insert (some 1) (.new ⟨"b"⟩ "Alpha_1" (.property (.builtin "float") false)),
    .insert (some 1) { Decl.new ⟨"c"⟩ "Alpha" (.property (.builtin "int") false) with
      ignored := true }]

/-- The method is passed over the number that the last property has taken. -/
theorem separateAllNames_exact_styleTree :
    HasRival styleTree styleTree.separateAllNames.tree [2, 3, 4] 3 ∧
      IsLeast (freeNumbers styleTree styleTree.separateAllNames.tree [2, 3, 4] 3) 2 ∧
      (styleTree.separateAllNames.tree.decl 3).name = "Alpha_2" := by
  have hchildren : styleTree.namedChildren 1 = [2, 3, 4] := by decide +kernel
  have hfirst : (styleTree.separateAllNames.tree.decl 2).name = (styleTree.decl 2).name := by
    decide +kernel
  have hnumbered : numberedName (styleTree.decl 3).name 2 = "Alpha_2" := by decide +kernel
  obtain ⟨-, hrule⟩ := separateAllNames_exact styleTree
  obtain ⟨-, hrenamed, hnumber⟩ := hrule 1 3 (by rw [hchildren]; decide)
  rw [hchildren] at hrenamed hnumber
  have hrival : HasRival styleTree styleTree.separateAllNames.tree [2, 3, 4] 3 := by
    refine ⟨2, by decide, by decide, hfirst, by decide +kernel, ?_⟩
    have hproperty : (styleTree.decl 2).signature? = none := by decide +kernel
    rintro ⟨s, -, hs, -⟩
    exact absurd (hproperty.symm.trans hs) (by simp)
  obtain ⟨k, hleast, hname⟩ := hnumber (hrenamed.2 hrival)
  have htwo : IsLeast (freeNumbers styleTree styleTree.separateAllNames.tree [2, 3, 4] 3) 2 := by
    refine ⟨⟨by decide, by decide +kernel⟩, fun j ⟨hj, hfree⟩ => ?_⟩
    by_contra hlt
    obtain rfl : j = 1 := by omega
    exact absurd (hfree 4 (by decide)).1 (by decide +kernel)
  obtain rfl := hleast.unique htwo
  exact ⟨hrival, htwo, hname.trans hnumbered⟩

end Tree

end Bindery
