import Bindery.Naming.Normalize
import Bindery.Proofs.Agreement
import Bindery.Selection

/-!
# Selecting and naming do not depend on the order of insertion

Selectors and renamings look declarations up by name, and the answers come in the order of
insertion.  That order has no effect: a class has to be the only one of its name, and what is done
to each of the declarations that are found, hiding or renaming them, can be done in any order.
So suppressing and normalising agree on renumbered trees (`agrees_suppress`,
`agrees_normaliseNames`).
-/

namespace Bindery.Tree

open Equiv (Perm)

variable {σ : Perm Nat} {t u : Tree}

/-- A look-up finds nothing in both trees, or something in both. -/
lemma found_cases {ids ids' : List Nat} (h : ids'.Perm (ids.map σ)) :
    (ids = [] ∧ ids' = []) ∨
      ∃ first rest first' rest', ids = first :: rest ∧ ids' = first' :: rest' := by
  have hlength := h.length_eq
  rw [List.length_map] at hlength
  cases ids <;> cases ids' <;> simp at hlength ⊢

/-! ## Selecting -/

/-- The same failure, or the same declarations in some order. -/
inductive SamePicks (σ : Perm Nat) :
    Except PassError (List Nat) → Except PassError (List Nat) → Prop
  | error (e : PassError) : SamePicks σ (.error e) (.error e)
  | ok {ids ids' : List Nat} (h : ids'.Perm (ids.map σ)) : SamePicks σ (.ok ids) (.ok ids')

/-- A class is found by its name; only the messages about one that is not depend on the order. -/
lemma classNamed_of_renumbered (h : Renumbered σ t u) (name : String) :
    (u.classNamed name).value = (t.classNamed name).value.map σ := by
  have hfound : ((u.declaredAs name).filter fun id => (u.decl id).isCompleteClass).Perm
      (((t.declaredAs name).filter fun id => (t.decl id).isCompleteClass).map σ) := by
    rw [← Renumbered.filter_eq (q := fun id => (u.decl id).isCompleteClass)
      fun id => by rw [h.decl_eq]]
    exact (h.declaredAs_perm name).filter _
  unfold classNamed
  generalize (t.declaredAs name).filter (fun id => (t.decl id).isCompleteClass) = found at hfound
  generalize (u.declaredAs name).filter (fun id => (u.decl id).isCompleteClass) = found' at hfound
  match found, found', hfound with
  | [], found', hfound =>
    rw [List.map_nil, List.perm_nil] at hfound
    subst hfound
    cases t.similarClasses name <;> cases u.similarClasses name <;> rfl
  | [id], found', hfound =>
    rw [List.map_singleton, List.perm_singleton] at hfound
    subst hfound
    rfl
  | _ :: _ :: _, [], hfound => exact absurd hfound.length_eq (by simp)
  | _ :: _ :: _, [_], hfound => exact absurd hfound.length_eq (by simp)
  | _ :: _ :: _, _ :: _ :: _, hfound => rfl

/-- A selector picks the same declarations, though maybe in another order. -/
lemma samePicks_select (h : Renumbered σ t u) (selector : Selector) :
    SamePicks σ (t.select selector).value (u.select selector).value := by
  cases selector with
  | global name =>
    have hfound : ((u.declaredAs name).filter u.inNamespaceScope).Perm
        (((t.declaredAs name).filter t.inNamespaceScope).map σ) := by
      rw [← Renumbered.filter_eq h.inNamespaceScope_eq]
      exact (h.declaredAs_perm name).filter _
    rcases found_cases hfound with ⟨hnone, hnone'⟩ | ⟨first, rest, first', rest', hsome, hsome'⟩
    · simp only [select, hnone, hnone']
      exact .error _
    · rw [hsome, hsome'] at hfound
      simp only [select, hsome, hsome']
      exact .ok hfound
  | property className propertyName =>
    simp only [select, Logged.value_bind, classNamed_of_renumbered h]
    cases (t.classNamed className).value with
    | error cause => exact .error _
    | ok id =>
      simp only [Except.map, h.childrenOfKind_eq]
      rw [Renumbered.find?_eq (p := fun c => (t.decl c).headerName = propertyName)
        fun c => by rw [h.decl_eq]]
      cases (t.childrenOfKind id .property).find? fun c => (t.decl c).headerName = propertyName with
      | none => exact .error _
      | some c => exact .ok (.refl _)

lemma samePicks_selectAll (h : Renumbered σ t u) (selectors : List Selector) :
    SamePicks σ (t.selectAll selectors).value (u.selectAll selectors).value := by
  induction selectors with
  | nil => exact .ok .nil
  | cons selector selectors ih =>
    simp only [selectAll, Logged.value_bind]
    have hfirst := samePicks_select h selector
    generalize (t.select selector).value = picks, (u.select selector).value = picks' at hfirst ⊢
    cases hfirst with
    | error e => exact .error e
    | ok hids =>
      simp only [Logged.value_bind]
      generalize (t.selectAll selectors).value = more, (u.selectAll selectors).value = more'
        at ih ⊢
      cases ih with
      | error e => exact .error e
      | ok hmore =>
        refine .ok ?_
        rw [List.map_append]
        exact hids.append hmore

/-- Hiding is the same edit for all, so the order in which they were picked does not matter. -/
lemma agrees_ignoreAll (h : Renumbered σ t u) {ids ids' : List Nat}
    (hids : ids'.Perm (ids.map σ)) : Progress.Agrees σ (t.ignoreAll ids) (u.ignoreAll ids') :=
  .sweep_perm (fun d => d.ignored) .ignore (fun _ _ => rfl) h hids

/-- Selectors are resolved by names and kinds, and hide the same declarations in both trees. -/
theorem agrees_suppress (h : Renumbered σ t u) (selectors : List Selector) :
    Outcome.Agrees σ (t.suppress selectors) (u.suppress selectors) := by
  have hpicks := samePicks_selectAll h selectors
  unfold suppress ignoreSelected
  generalize t.selectAll selectors = selected, u.selectAll selectors = selected' at hpicks ⊢
  obtain ⟨picks, log⟩ := selected
  obtain ⟨picks', log'⟩ := selected'
  cases hpicks with
  | error e => exact ⟨h, rfl⟩
  | ok hids =>
    have hignored := agrees_ignoreAll h hids
    exact ⟨hignored.trees, congrArg Except.ok hignored.changes_eq⟩

/-! ## Prefixes -/

/-- Namespaces are gone through along their children, whose order is the same. -/
lemma classesInNamespaces_of_renumbered (h : Renumbered σ t u) (scope : Nat) :
    u.classesInNamespaces (σ scope) = (t.classesInNamespaces scope).map σ := by
  induction scope using classesInNamespaces.induct t with
  | case1 scope ih =>
    have hinner : ∀ n ∈ t.childrenOfKind scope .namespaceScope,
        u.classesInNamespaces (σ n) = (t.classesInNamespaces n).map σ := fun n hn => ih n hn
    rw [classesInNamespaces, classesInNamespaces]
    simp only [List.flatMap_subtype, List.unattach_attach, h.childrenOfKind_eq, List.flatMap_map,
      List.map_append, List.map_flatMap]
    rw [List.flatMap_def, List.flatMap_def, List.map_congr_left hinner]

lemma prefixTargets_of_renumbered (h : Renumbered σ t u) :
    u.prefixTargets = t.prefixTargets.map σ := by
  simp only [prefixTargets, h.units_eq, List.flatMap_map, List.map_flatMap, h.childrenOfKind_eq,
    classesInNamespaces_of_renumbered h, List.map_append]

lemma agrees_takeOffPrefixOf (rule : NamePrefix) (h : Renumbered σ t u) (id : Nat) :
    Progress.Agrees σ (takeOffPrefixOf rule t id) (takeOffPrefixOf rule u (σ id)) := by
  unfold takeOffPrefixOf
  simp only [h.decl_eq]
  split
  · exact Progress.agrees_unchanged h
  · split
    · exact ⟨h, rfl⟩
    · exact Progress.agrees_edited h id _ _ _

lemma agrees_takeOffPrefix (h : Renumbered σ t u) (rule : NamePrefix) :
    Progress.Agrees σ (t.takeOffPrefix rule) (u.takeOffPrefix rule) := by
  rw [takeOffPrefix, takeOffPrefix, prefixTargets_of_renumbered h]
  exact .sweep (agrees_takeOffPrefixOf rule) h _

/-! ## Given names and capitals -/

lemma agrees_giveName (name : String) (h : Renumbered σ t u) (id : Nat) :
    Progress.Agrees σ (giveName name t id) (giveName name u (σ id)) :=
  Progress.agrees_of_edit (fun d => d.name = name) (.rename name) (fun _ _ => rfl) h id

/-- The declarations of a header name may come in another order, as all of them get the same name.
-/
lemma agrees_sweep_giveName (h : Renumbered σ t u) (name : String) {ids ids' : List Nat}
    (hids : ids'.Perm (ids.map σ)) :
    Progress.Agrees σ (Progress.sweep (giveName name) ids t)
      (Progress.sweep (giveName name) ids' u) :=
  .sweep_perm (fun d => d.name = name) (.rename name) (fun _ _ => rfl) h hids

lemma agrees_giveNames (h : Renumbered σ t u) (renames : List Renaming) :
    Outcome.Agrees σ (t.giveNames renames) (u.giveNames renames) := by
  induction renames generalizing t u with
  | nil => exact Outcome.agrees_unchanged h
  | cons rename renames ih =>
    have hfound := h.declaredAs_perm rename.headerName
    rw [giveNames, giveNames]
    rcases found_cases hfound with ⟨hnone, hnone'⟩ | ⟨first, rest, first', rest', hsome, hsome'⟩
    · rw [hnone, hnone']
      exact ⟨h, rfl⟩
    · rw [hsome, hsome'] at hfound ⊢
      have hnamed := agrees_sweep_giveName h rename.name hfound
      exact (Outcome.agrees_ofProgress hnamed).andThen (ih hnamed.trees)

lemma agrees_capitaliseOne (targets : List CapitalTarget) (h : Renumbered σ t u) (id : Nat) :
    Progress.Agrees σ (capitaliseOne targets t id) (capitaliseOne targets u (σ id)) := by
  unfold capitaliseOne
  simp only [h.decl_eq]
  split
  · exact agrees_giveName _ h id
  · exact Progress.agrees_unchanged h

lemma agrees_capitalise (h : Renumbered σ t u) (targets : List CapitalTarget) :
    Progress.Agrees σ (t.capitalise targets) (u.capitalise targets) := by
  rw [capitalise, capitalise, h.walk_eq]
  exact .sweep (agrees_capitaliseOne targets) h _

/-- Naming rules do not look at numbers. -/
theorem agrees_normaliseNames (h : Renumbered σ t u) (rule : NamePrefix) (renames : List Renaming)
    (targets : List CapitalTarget) :
    Outcome.Agrees σ (t.normaliseNames rule renames targets)
      (u.normaliseNames rule renames targets) := by
  have hprefix := agrees_takeOffPrefix h rule
  have hnamed : Outcome.Agrees σ
      ((Outcome.ofProgress (t.takeOffPrefix rule)).andThen (·.giveNames renames))
      ((Outcome.ofProgress (u.takeOffPrefix rule)).andThen (·.giveNames renames)) :=
    (Outcome.agrees_ofProgress hprefix).andThen (agrees_giveNames hprefix.trees renames)
  exact hnamed.andThen (Outcome.agrees_ofProgress (agrees_capitalise hnamed.trees targets))

end Bindery.Tree
