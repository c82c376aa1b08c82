import Bindery.Pass.DuplicateNames
import Bindery.Proofs.Sweep

/-!
# The names of a scope do not clash

A fresh name is one that is not taken (`freshName_not_mem`): numbered names are all different, and
one more of them is tried than names are taken.

Going through a scope, the names given so far never clash with those that are still to come
(`pairwise_separateNames`), so after the pass no two declarations of a scope clash
(`separated_separateAllNames`).  This stays so while names stay and nothing is added
(`Separated.of_develops`).
-/

namespace Bindery

/-! ## Fresh names -/

/-- Different numbers are written differently, so the names are different. -/
lemma numberedName_injective (name : String) : Function.Injective (numberedName name) := by
  intro i j h
  have htext : Text.Decimal.text i = Text.Decimal.text j := (String.append_right_inj _).1 h
  have hdigits : Text.Decimal.digits i = Text.Decimal.digits j := String.ofList_injective htext
  rw [← Text.Decimal.value_digits i, hdigits, Text.Decimal.value_digits]

/-- A fresh name has the least number, from one on, whose name is not taken. -/
lemma exists_freshName_least (taken : List String) (name : String) :
    ∃ k, freshName taken name = numberedName name k ∧ 1 ≤ k ∧ numberedName name k ∉ taken ∧
      ∀ j, 1 ≤ j → j < k → numberedName name j ∈ taken := by
  have hnodup : ((List.range' 1 (taken.length + 1)).map (numberedName name)).Nodup :=
    List.Nodup.map (numberedName_injective name) List.nodup_range'
  have hlength : ((List.range' 1 (taken.length + 1)).map (numberedName name)).length =
      taken.length + 1 := by simp
  rw [freshName, List.find?_map]
  cases hfound : (List.range' 1 (taken.length + 1)).find?
      ((fun candidate => !taken.contains candidate) ∘ numberedName name) with
  | none =>
    have hsub : (List.range' 1 (taken.length + 1)).map (numberedName name) ⊆ taken := by
      intro candidate hmem
      obtain ⟨k, hk, rfl⟩ := List.mem_map.1 hmem
      simpa using List.find?_eq_none.1 hfound k hk
    have hle := hnodup.length_le_of_subset hsub
    omega
  | some k =>
    obtain ⟨hfree, hmem, hleast⟩ := List.find?_range'_eq_some.1 hfound
    refine ⟨k, rfl, (List.mem_range'_1.1 hmem).1, by simpa using hfree, fun j hj hjk => ?_⟩
    simpa using hleast j hj hjk

/-- Among one more numbered names than there are names taken one is free. -/
lemma exists_freshName_eq (taken : List String) (name : String) :
    ∃ k, freshName taken name = numberedName name k ∧ freshName taken name ∉ taken := by
  obtain ⟨k, hk, -, hfresh, -⟩ := exists_freshName_least taken name
  exact ⟨k, hk, hk ▸ hfresh⟩

theorem freshName_not_mem (taken : List String) (name : String) : freshName taken name ∉ taken :=
  (exists_freshName_eq taken name).choose_spec.2

/-- A name that is another one, or that name with an underscore and more behind it. -/
def Numbered (name name' : String) : Prop := name' = name ∨ ∃ rest, name' = name ++ "_" ++ rest

lemma Numbered.trans {a b c : String} (hab : Numbered a b) (hbc : Numbered b c) :
    Numbered a c := by
  rcases hbc with rfl | ⟨rest, rfl⟩
  · exact hab
  · rcases hab with rfl | ⟨rest', rfl⟩
    · exact .inr ⟨rest, rfl⟩
    · exact .inr ⟨rest' ++ "_" ++ rest, by simp only [String.append_assoc]⟩

/-! ## Clashes -/

namespace NameUse

/-- Two declarations of one name get along only if both are overloads with different parameter
types. -/
lemma clashes_eq_false_iff {a b : NameUse} : a.clashes b = false ↔
    (a.name = b.name → ∃ k l, a.overloadKey = some k ∧ b.overloadKey = some l ∧ k ≠ l) := by
  unfold clashes
  cases a.overloadKey <;> cases b.overloadKey <;> simp

lemma clashes_eq_false_of_name_ne {a b : NameUse} (h : a.name ≠ b.name) :
    a.clashes b = false :=
  clashes_eq_false_iff.2 fun hname => absurd hname h

end NameUse

namespace Tree

variable {t u : Tree}

/-- The use that the declaration at a position makes of its name. -/
def useAt (t : Tree) (id : Nat) : NameUse := .ofDecl (t.decl id)

/-- Renaming a declaration leaves its parameter types alone. -/
lemma useAt_rename {id : Nat} (h : id < t.size) (name : String) :
    (t.edit id (.rename name)).useAt id = { t.useAt id with name } := by
  rw [useAt, decl_edit, if_pos ⟨rfl, h⟩]
  rfl

/-! ## Going through one scope -/

/-- The warning that a declaration gets another name. -/
def clashMessage (t : Tree) (id : Nat) (fresh : String) : Message :=
  ⟨.warn, (t.decl id).kind.label ++ " \"" ++ t.qualifiedName id ++
    "\" clashes with an earlier declaration, renaming it to \"" ++ fresh ++ "\""⟩

/-- The next declaration of a scope keeps its name, or it gets a fresh one if it clashes with an
earlier use, and this is counted and reported. -/
lemma separateNames_cons_eq (taken : List String) (uses : List NameUse) (id : Nat)
    (ids : List Nat) (t : Tree) : separateNames taken uses (id :: ids) t =
      if ∃ use ∈ uses, use.clashes (t.useAt id) = true then
        (Progress.edited t id (.rename (freshName taken (t.decl id).name))
          [t.clashMessage id (freshName taken (t.decl id).name)]).andThen
          (separateNames (freshName taken (t.decl id).name :: taken)
            ({ t.useAt id with name := freshName taken (t.decl id).name } :: uses) ids)
      else separateNames taken (t.useAt id :: uses) ids t := by
  rw [separateNames]
  split
  · next hclash => exact (if_pos (List.any_eq_true.1 hclash)).symm
  · next hclash => exact (if_neg fun h => hclash (List.any_eq_true.2 h)).symm

/-- One declaration at a time: the name is kept, or replaced by a fresh one that is taken from then
on. -/
lemma separateNames_cons (taken : List String) (uses : List NameUse) (id : Nat) (ids : List Nat)
    (t : Tree) : ∃ log, separateNames taken uses (id :: ids) t =
      if ∃ use ∈ uses, use.clashes (t.useAt id) = true then
        (Progress.edited t id (.rename (freshName taken (t.decl id).name)) log).andThen
          (separateNames (freshName taken (t.decl id).name :: taken)
            ({ t.useAt id with name := freshName taken (t.decl id).name } :: uses) ids)
      else separateNames taken (t.useAt id :: uses) ids t :=
  ⟨_, separateNames_cons_eq taken uses id ids t⟩

/-- What is done about the next declaration of a scope: nothing, if its name clashes with no earlier
one, or it gets a fresh name. -/
lemma separateNames_cons_cases (taken : List String) (uses : List NameUse) (id : Nat)
    (ids : List Nat) (t : Tree) :
    ((∀ use ∈ uses, use.clashes (t.useAt id) = false) ∧
        separateNames taken uses (id :: ids) t = separateNames taken (t.useAt id :: uses) ids t) ∨
      ∃ k fresh, fresh = numberedName (t.decl id).name k ∧ fresh ∉ taken ∧
        (separateNames taken uses (id :: ids) t).tree =
          (separateNames (fresh :: taken) ({ t.useAt id with name := fresh } :: uses) ids
            (t.edit id (.rename fresh))).tree := by
  obtain ⟨log, h⟩ := separateNames_cons taken uses id ids t
  rw [h]
  split
  · obtain ⟨k, hk, hfresh⟩ := exists_freshName_eq taken (t.decl id).name
    exact .inr ⟨k, _, hk, hfresh, rfl⟩
  · next hclash =>
    exact .inl ⟨fun use huse => Bool.eq_false_iff.2 fun h => hclash ⟨use, huse, h⟩, rfl⟩

lemma size_separateNames (taken : List String) (uses : List NameUse) (ids : List Nat) (t : Tree) :
    (separateNames taken uses ids t).tree.size = t.size := by
  induction ids generalizing taken uses t with
  | nil => rfl
  | cons id ids ih =>
    rcases separateNames_cons_cases taken uses id ids t with ⟨-, h⟩ | ⟨k, fresh, -, -, h⟩
    · rw [h, ih]
    · rw [h, ih, size_edit]

lemma develops_separateNames (taken : List String) (uses : List NameUse) (ids : List Nat)
    (t : Tree) : t.Develops [.name] (separateNames taken uses ids t).tree := by
  induction ids generalizing taken uses t with
  | nil => exact .refl _ t
  | cons id ids ih =>
    rcases separateNames_cons_cases taken uses id ids t with ⟨-, h⟩ | ⟨k, fresh, -, -, h⟩
    · rw [h]
      exact ih _ _ t
    · rw [h]
      exact (develops_edit (show Edit.Fits (.rename fresh) _ from trivial)).trans (ih _ _ _)

/-- Only the declarations of the list are renamed. -/
lemma decl_separateNames_of_not_mem (taken : List String) (uses : List NameUse) {ids : List Nat}
    (t : Tree) {i : Nat} (hi : i ∉ ids) :
    (separateNames taken uses ids t).tree.decl i = t.decl i := by
  induction ids generalizing taken uses t with
  | nil => rfl
  | cons id ids ih =>
    rw [List.mem_cons, not_or] at hi
    rcases separateNames_cons_cases taken uses id ids t with ⟨-, h⟩ | ⟨k, fresh, -, -, h⟩
    · rw [h, ih _ _ t hi.2]
    · rw [h, ih _ _ _ hi.2, decl_edit, if_neg fun hid => hi.1 hid.1.symm]

/-- A name is kept, or gets a number behind it. -/
lemma numbered_separateNames (taken : List String) (uses : List NameUse) (ids : List Nat)
    (t : Tree) (i : Nat) :
    Numbered (t.decl i).name ((separateNames taken uses ids t).tree.decl i).name := by
  induction ids generalizing taken uses t with
  | nil => exact .inl rfl
  | cons id ids ih =>
    rcases separateNames_cons_cases taken uses id ids t with ⟨-, h⟩ | ⟨k, fresh, hfresh, -, h⟩
    · rw [h]
      exact ih _ _ t
    · rw [h]
      refine Numbered.trans ?_ (ih _ _ _)
      rw [decl_edit]
      split
      · next hi =>
        rw [← hi.1, hfresh]
        exact .inr ⟨_, rfl⟩
      · exact .inl rfl

/-- The uses that declarations of a tree make of their names clash neither with earlier ones nor
with each other. -/
def Unclashing (t : Tree) (uses : List NameUse) (ids : List Nat) : Prop :=
  (ids.map t.useAt).Pairwise (fun a b => a.clashes b = false) ∧
    ∀ use ∈ uses, ∀ id ∈ ids, use.clashes (t.useAt id) = false

lemma unclashing_cons_iff {uses : List NameUse} {id : Nat} {ids : List Nat} :
    t.Unclashing uses (id :: ids) ↔
      (∀ use ∈ uses, use.clashes (t.useAt id) = false) ∧
        t.Unclashing (t.useAt id :: uses) ids := by
  simp only [Unclashing, List.map_cons, List.pairwise_cons, List.mem_map, List.forall_mem_cons,
    forall_exists_index, and_imp, forall_apply_eq_imp_iff₂, forall_and]
  tauto

/-- What keeps the induction going is that all names of the scope, old and new, are among those
taken.  So a fresh name is unlike every name that an earlier or later declaration has. -/
lemma unclashing_separateNames {taken : List String} {uses : List NameUse} {ids : List Nat}
    {t : Tree} (hnodup : ids.Nodup) (hsize : ∀ id ∈ ids, id < t.size)
    (hids : ∀ id ∈ ids, (t.decl id).name ∈ taken) (huses : ∀ use ∈ uses, use.name ∈ taken) :
    (separateNames taken uses ids t).tree.Unclashing uses ids := by
  induction ids generalizing taken uses t with
  | nil => exact ⟨.nil, by simp⟩
  | cons id ids ih =>
    obtain ⟨hid, hnodup⟩ := List.nodup_cons.1 hnodup
    rw [List.forall_mem_cons] at hsize hids
    rw [unclashing_cons_iff]
    rcases separateNames_cons_cases taken uses id ids t with ⟨hclash, h⟩ | ⟨k, fresh, -, hfresh, h⟩
    · have hhere : (separateNames taken uses (id :: ids) t).tree.useAt id = t.useAt id := by
        rw [h, useAt, decl_separateNames_of_not_mem _ _ _ hid, useAt]
      rw [hhere, h]
      exact ⟨hclash, ih hnodup hsize.2 hids.2 (List.forall_mem_cons.2 ⟨hids.1, huses⟩)⟩
    · -- Neither an earlier declaration has the fresh name, nor has a later one so far.
      have hhere : (separateNames taken uses (id :: ids) t).tree.useAt id =
          { t.useAt id with name := fresh } := by
        rw [h, useAt, decl_separateNames_of_not_mem _ _ _ hid, ← useAt, useAt_rename hsize.1]
      rw [hhere, h]
      refine ⟨fun use huse => ?_, ih hnodup ?_ ?_ ?_⟩
      · refine NameUse.clashes_eq_false_of_name_ne fun hname => hfresh ?_
        rw [← show use.name = fresh from hname]
        exact huses use huse
      · simpa using hsize.2
      · intro i hi
        have hne : ¬(id = i ∧ i < t.size) := fun h => hid (h.1 ▸ hi)
        rw [decl_edit, if_neg hne]
        exact List.mem_cons_of_mem _ (hids.2 i hi)
      · refine List.forall_mem_cons.2 ⟨List.mem_cons_self, fun use huse => ?_⟩
        exact List.mem_cons_of_mem _ (huses use huse)

/-- Where nothing clashes nothing is renamed. -/
lemma separateNames_idle {taken : List String} {uses : List NameUse} {ids : List Nat}
    (h : t.Unclashing uses ids) : (separateNames taken uses ids t).Idle t := by
  induction ids generalizing uses with
  | nil => exact Progress.idle_unchanged t
  | cons id ids ih =>
    obtain ⟨hclash, hrest⟩ := unclashing_cons_iff.1 h
    rw [separateNames, if_neg]
    · exact ih hrest
    · rw [Bool.not_eq_true, List.any_eq_false]
      exact fun use huse => Bool.not_eq_true _ ▸ hclash use huse

/-! ## All scopes -/

/-- No two declarations of a scope clash. -/
def SeparatedIn (t : Tree) (scope : Nat) : Prop := t.Unclashing [] (t.namedChildren scope)

/-- No two declarations of any scope clash. -/
def Separated (t : Tree) : Prop := ∀ scope, t.SeparatedIn scope

lemma mem_namedChildren_iff {scope c : Nat} :
    c ∈ t.namedChildren scope ↔ t.parent? c = some scope ∧ (t.decl c).ignored = false := by
  rw [namedChildren, List.mem_filter, mem_children_iff, Bool.not_eq_true']

lemma develops_separateNamesIn (t : Tree) (scope : Nat) :
    t.Develops [.name] (t.separateNamesIn scope).tree := develops_separateNames _ _ _ t

lemma size_separateNamesIn (t : Tree) (scope : Nat) :
    (t.separateNamesIn scope).tree.size = t.size := size_separateNames _ _ _ t

/-- A development that leaves names alone leaves their use alone. -/
lemma useAt_of_develops {free : List Field} (hdev : t.Develops free u) (hfree : .name ∉ free)
    {id : Nat} (hid : id < t.size) : u.useAt id = t.useAt id := by
  have hname : (t.decl id).name = (u.decl id).name := hdev.same .name hfree id hid
  have hkey := hdev.reads (fun d => d.signature?.map (·.overloadKey))
    (fun d => by simp [Decl.signature?_shape, Function.comp_def]) hid
  simp only [useAt, NameUse.ofDecl, hname, hkey]

/-- A new name leaves a declaration where it is, and open or kept out as it is. -/
lemma namedChildren_of_develops (hdev : t.Develops [.name] u) (hsize : u.size = t.size)
    (scope : Nat) : u.namedChildren scope = t.namedChildren scope := by
  rw [namedChildren, namedChildren, hdev.children_eq hsize]
  refine List.filter_congr fun c hc => ?_
  have hsame : (t.decl c).ignored = (u.decl c).ignored :=
    hdev.same .ignored (by simp) c (mem_children hc).2.1
  rw [hsame]

lemma separatedIn_separateNamesIn (t : Tree) (scope : Nat) :
    (t.separateNamesIn scope).tree.SeparatedIn scope := by
  have hdev := develops_separateNamesIn t scope
  rw [SeparatedIn, namedChildren_of_develops hdev (size_separateNamesIn t scope)]
  refine unclashing_separateNames ((nodup_children t scope).filter _) (fun id hid => ?_)
    (fun id hid => List.mem_map_of_mem hid) (by simp)
  exact lt_size_of_parent? (mem_namedChildren_iff.1 hid).1

/-- If the declarations of a scope have not been renamed, and none has been added, it stays
separated: hiding a declaration resolves clashes only. -/
lemma SeparatedIn.of_develops {free : List Field} {scope : Nat} (h : t.SeparatedIn scope)
    (hdev : t.Develops free u) (hsize : u.size = t.size)
    (huse : ∀ id ∈ t.namedChildren scope, u.useAt id = t.useAt id) : u.SeparatedIn scope := by
  have hsub : (u.namedChildren scope).Sublist (t.namedChildren scope) := by
    have hfilter : u.namedChildren scope =
        (t.namedChildren scope).filter fun c => !(u.decl c).ignored := by
      rw [namedChildren, namedChildren, hdev.children_eq hsize, List.filter_filter]
      refine List.filter_congr fun c hc => ?_
      cases hign : (t.decl c).ignored with
      | false => simp
      | true => simp [hdev.ignored_of (mem_children hc).2.1 hign]
    rw [hfilter]
    exact List.filter_sublist
  have hmap : (t.namedChildren scope).map u.useAt = (t.namedChildren scope).map t.useAt :=
    List.map_congr_left huse
  refine ⟨?_, by simp⟩
  refine List.Pairwise.sublist (hsub.map u.useAt) ?_
  rw [hmap]
  exact h.1

/-- Declarations belong to one scope each, so renaming in one scope brings about no clash in
another. -/
lemma SeparatedIn.of_separateNamesIn {i : Nat} (h : t.SeparatedIn i) (scope : Nat) :
    (t.separateNamesIn scope).tree.SeparatedIn i := by
  by_cases hscope : scope = i
  · rw [← hscope]
    exact separatedIn_separateNamesIn t scope
  · refine h.of_develops (develops_separateNamesIn t scope) (size_separateNamesIn t scope) ?_
    intro id hid
    rw [useAt, separateNamesIn, decl_separateNames_of_not_mem, useAt]
    intro hmem
    have hparent := (mem_namedChildren_iff.1 hid).1
    rw [(mem_namedChildren_iff.1 hmem).1] at hparent
    exact hscope (Option.some.inj hparent)

/-- Without new names and new declarations there are no new clashes, as nothing hidden is shown
again. -/
theorem Separated.of_develops {free : List Field} (h : t.Separated) (hdev : t.Develops free u)
    (hsize : u.size = t.size) (hfree : .name ∉ free) : u.Separated := by
  refine fun scope => (h scope).of_develops hdev hsize fun id hid => ?_
  exact useAt_of_develops hdev hfree (lt_size_of_parent? (mem_namedChildren_iff.1 hid).1)

lemma develops_separateAllNames (t : Tree) : t.Develops [.name] t.separateAllNames.tree :=
  Progress.sweep_develops develops_separateNamesIn _ t

lemma numbered_separateAllNames (t : Tree) (i : Nat) :
    Numbered (t.decl i).name (t.separateAllNames.tree.decl i).name :=
  Progress.sweep_invariant (I := fun u => Numbered (t.decl i).name (u.decl i).name)
    (fun _ _ u hu => hu.trans (numbered_separateNames _ _ _ u i)) (.inl rfl)

lemma size_separateAllNames (t : Tree) : t.separateAllNames.tree.size = t.size :=
  Progress.size_sweep size_separateNamesIn _ t

theorem separated_separateAllNames (t : Tree) : t.separateAllNames.tree.Separated := by
  intro scope
  have hchildren := (develops_separateAllNames t).children_eq (size_separateAllNames t) scope
  by_cases hempty : t.children scope = []
  · refine ⟨?_, by simp⟩
    rw [namedChildren, hchildren, hempty]
    exact .nil
  · obtain ⟨c, hc⟩ := List.exists_mem_of_ne_nil _ hempty
    refine Progress.sweep_establishes separatedIn_separateNamesIn
      (fun t id i h => h.of_separateNamesIn id) scope
      (List.mem_filter.2 ⟨?_, by simpa using hempty⟩)
    have hc := mem_children hc
    exact mem_walk_iff.2 (by omega)

lemma Separated.idle (h : t.Separated) : t.separateAllNames.Idle t :=
  Progress.sweep_idle fun scope _ => separateNames_idle (h scope)

end Tree

end Bindery
