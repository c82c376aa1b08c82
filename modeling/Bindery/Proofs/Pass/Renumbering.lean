import Bindery.Proofs.Agreement
import Bindery.Proofs.Pass.Hierarchy
import Bindery.Proofs.Pass.Run

/-!
# No pass depends on the order of insertion

Every pass goes through the tree in the order of the walk, from a scope to its children, and looks
other declarations up by identifier.  Neither depends on the positions, so every pass agrees on
renumbered trees (`Pass.agrees_run`), and so does every list of passes (`Tree.agrees_applyPasses`).
-/

namespace Bindery

open Equiv (Perm)
open Bindery.Tree (Renumbered)

variable {σ : Perm Nat} {t u : Tree}

namespace Promotion

/-- The same promotion, into the class at its new position. -/
def renumbered (σ : Perm Nat) (p : Promotion) : Promotion := { p with target := σ p.target }

end Promotion

namespace Tree

/-! ## Promotion -/

/-- The class a function would become a method of is found by identifier, and has another number. -/
lemma promotionTarget?_of_renumbered (h : Renumbered σ t u) (signature : Signature) :
    (u.promotionTarget? signature).value = (t.promotionTarget? signature).value.map σ := by
  unfold promotionTarget?
  cases signature.arguments with
  | nil => rfl
  | cons first rest =>
    simp only [Logged.value_bind, Logged.value_pure, h.classBehind_eq, Option.filter_map,
      Function.comp_def, h.decl_eq]

/-- What the new method is does not depend on numbers; the class it goes to has one. -/
lemma promotedTo?_of_renumbered (h : Renumbered σ t u) (strip : Bool) (function : Decl)
    (target : Nat) :
    u.promotedTo? strip function (σ target) =
      (t.promotedTo? strip function target).map (Promotion.renumbered σ) := by
  cases hs : function.signature? with
  | none => simp [promotedTo?, hs]
  | some s =>
    cases hget : t.get? function.usr.promoted with
    | some other =>
      rw [promotedTo?_of_taken hget, Option.map_none]
      exact promotedTo?_of_taken (by rw [h.get?_eq, hget, Option.map_some])
    | none =>
      have hget' : u.get? function.usr.promoted = none := by rw [h.get?_eq, hget, Option.map_none]
      cases hmethod : Method.ofFunction? s function.usr <;>
        simp [promotedTo?, hs, hget, hget', hmethod, h.decl_eq, Promotion.renumbered]

lemma promotion?_of_renumbered (h : Renumbered σ t u) (strip : Bool) (id : Nat) :
    (u.promotion? strip (σ id)).value =
      (t.promotion? strip id).value.map (Promotion.renumbered σ) := by
  unfold promotion?
  rw [h.decl_eq]
  cases (t.decl id).signature? with
  | none => rfl
  | some signature =>
    simp only [Logged.value_bind, Logged.value_pure, promotionTarget?_of_renumbered h]
    cases (t.promotionTarget? signature).value with
    | none => rfl
    | some target => exact promotedTo?_of_renumbered h strip _ target

/-- The new method gets the same number in both, as numbers behind the tree are left alone. -/
lemma agrees_promoteOne (strip : Bool) (h : Renumbered σ t u) (id : Nat) :
    Outcome.Agrees σ (t.promoteOne strip id) (u.promoteOne strip (σ id)) := by
  have hfound := promotion?_of_renumbered h strip id
  rcases promoteOne_cases strip t id with ⟨hnot, -⟩ | ⟨p, grown, hp, hgrown, htree, hresult⟩
  · have hnone : (t.promotion? strip id).value = none := promotion?_eq_none_iff.2 hnot
    rw [hnone, Option.map_none] at hfound
    simp only [promoteOne, hnone, hfound]
    exact ⟨h, rfl⟩
  · obtain ⟨grown', hgrown', hafter⟩ := h.insert hgrown
    have hinsert : u.insert (some (p.renumbered σ).target) (p.renumbered σ).method = .ok grown' :=
      hgrown'
    rw [hp, Option.map_some] at hfound
    simp only [promoteOne, hp, hfound, hgrown, hinsert]
    exact ⟨hafter.edit id .ignore, rfl⟩

lemma isFreeFunction_of_renumbered (h : Renumbered σ t u) (id : Nat) :
    u.isFreeFunction (σ id) = t.isFreeFunction id := by
  rw [isFreeFunction, isFreeFunction, h.decl_eq, h.inNamespaceScope_eq]

lemma agrees_promoteFunctions (h : Renumbered σ t u) (strip : Bool) :
    Outcome.Agrees σ (t.promoteFunctions strip) (u.promoteFunctions strip) := by
  rw [promoteFunctions, promoteFunctions, h.walk_eq,
    Renumbered.filter_eq (isFreeFunction_of_renumbered h)]
  exact .sweep (agrees_promoteOne strip) h _

/-! ## Names that clash -/

/-- Names and overload keys are the same, so the same declarations clash and get the same new names.
-/
lemma agrees_separateNames (h : Renumbered σ t u) (taken : List String) (uses : List NameUse)
    (ids : List Nat) :
    Progress.Agrees σ (separateNames taken uses ids t)
      (separateNames taken uses (ids.map σ) u) := by
  induction ids generalizing t u taken uses with
  | nil => exact Progress.agrees_unchanged h
  | cons id ids ih =>
    rw [List.map_cons, separateNames, separateNames]
    simp only [h.decl_eq]
    split
    · exact (Progress.agrees_edited h id _ _ _).andThen (ih (h.edit id _) _ _)
    · exact ih h _ _

/-- A scope has the same declarations in the same order. -/
lemma namedChildren_of_renumbered (h : Renumbered σ t u) (scope : Nat) :
    u.namedChildren (σ scope) = (t.namedChildren scope).map σ := by
  rw [namedChildren, h.children_eq]
  exact Renumbered.filter_eq (fun c => by rw [h.decl_eq]) _

lemma agrees_separateNamesIn (h : Renumbered σ t u) (scope : Nat) :
    Progress.Agrees σ (t.separateNamesIn scope) (u.separateNamesIn (σ scope)) := by
  have hnames : ((t.namedChildren scope).map σ).map (fun id => (u.decl id).name) =
      (t.namedChildren scope).map fun id => (t.decl id).name := by
    simp only [List.map_map, Function.comp_def, h.decl_eq]
  simp only [separateNamesIn, namedChildren_of_renumbered h, hnames]
  exact agrees_separateNames h _ _ _

lemma agrees_separateAllNames (h : Renumbered σ t u) :
    Progress.Agrees σ t.separateAllNames u.separateAllNames := by
  rw [separateAllNames, separateAllNames, h.walk_eq,
    Renumbered.filter_eq (p := fun id => !(t.children id).isEmpty) fun id => by
      rw [h.children_eq, List.isEmpty_map]]
  exact .sweep agrees_separateNamesIn h _

/-! ## Enumerations of flags -/

lemma agrees_classifyEnum (h : Renumbered σ t u) (id : Nat) :
    Progress.Agrees σ (t.classifyEnum id) (u.classifyEnum (σ id)) := by
  unfold classifyEnum
  rw [h.decl_eq]
  cases (t.decl id).payload with
  | enumType variants isFlags =>
    dsimp only
    split
    · exact Progress.agrees_unchanged h
    · exact Progress.agrees_edited h id _ _ _
  | _ => exact Progress.agrees_unchanged h

lemma agrees_classifyEnums (h : Renumbered σ t u) :
    Progress.Agrees σ t.classifyEnums u.classifyEnums := by
  rw [classifyEnums, classifyEnums, h.walk_eq]
  exact .sweep agrees_classifyEnum h _

/-! ## Inherited defaults -/

/-- Overriding looks at two declarations only, not at where they stand. -/
lemma overrides_of_renumbered (h : Renumbered σ t u) (id base : Nat) :
    u.overrides (σ id) (σ base) = t.overrides id base := by
  rw [overrides, overrides, h.decl_eq, h.decl_eq]

/-- The base classes are searched by identifier, so the methods found are the same, in the same
order. -/
lemma overridden_of_renumbered (h : Renumbered σ t u) (id : Nat) :
    u.overridden (σ id) = (t.overridden id).map σ := by
  unfold overridden
  rw [h.decl_eq, h.parent?_eq]
  cases (t.decl id).method? with
  | none => rfl
  | some own =>
    cases t.parent? id with
    | none => rfl
    | some owner =>
      simp only [Option.map_some]
      split
      · rfl
      · rw [h.decl_eq, ancestry_of_rearranged h.rearranged h.rearranged.ids_perm, List.flatMap_map,
          List.map_flatMap]
        simp only [h.childrenOfKind_eq, Renumbered.filter_eq (overrides_of_renumbered h id)]

/-- The inherited values are read off the methods that are overridden. -/
lemma agrees_inheritDefaultsOf (h : Renumbered σ t u) (id : Nat) :
    Progress.Agrees σ (t.inheritDefaultsOf id) (u.inheritDefaultsOf (σ id)) := by
  have hinherited : ∀ (methods : List Nat) (i : Nat),
      u.inheritedDefault? (methods.map σ) i = t.inheritedDefault? methods i := fun methods i => by
    simp only [inheritedDefault?, List.findSome?_map, Function.comp_def, h.decl_eq]
  have hdefaults : ∀ signature,
      u.defaultsWithInherited (σ id) signature = t.defaultsWithInherited id signature := by
    intro signature
    simp only [defaultsWithInherited, overridden_of_renumbered h, hinherited]
  unfold inheritDefaultsOf
  rw [h.decl_eq]
  cases (t.decl id).signature? with
  | none => exact Progress.agrees_unchanged h
  | some signature =>
    simp only [hdefaults]
    exact ⟨h.edit id _, rfl⟩

lemma agrees_inheritDefaults (h : Renumbered σ t u) :
    Progress.Agrees σ t.inheritDefaults u.inheritDefaults := by
  simp only [inheritDefaults, h.walk_eq]
  rw [Renumbered.filter_eq (p := fun id => (t.decl id).kind = .method && !(t.decl id).ignored)
    fun id => by rw [h.decl_eq]]
  exact .sweep agrees_inheritDefaultsOf h _

/-! ## Default values before required parameters -/

lemma agrees_dropDefaultsOf (h : Renumbered σ t u) (id : Nat) :
    Progress.Agrees σ (t.dropDefaultsOf id) (u.dropDefaultsOf (σ id)) := by
  unfold dropDefaultsOf
  rw [h.decl_eq]
  cases (t.decl id).signature? with
  | none => exact Progress.agrees_unchanged h
  | some signature => exact ⟨h.edit id _, rfl⟩

lemma agrees_dropDefaults (h : Renumbered σ t u) :
    Progress.Agrees σ t.dropDefaults u.dropDefaults := by
  simp only [dropDefaults, h.walk_eq]
  rw [Renumbered.filter_eq (p := fun id => (t.decl id).kind.isCallable && !(t.decl id).ignored)
    fun id => by rw [h.decl_eq]]
  exact .sweep agrees_dropDefaultsOf h _

/-! ## Nested types that the interface needs -/

/-- What is mentioned is a list of identifiers, without any number in it. -/
lemma mentioned_of_renumbered (h : Renumbered σ t u) : u.mentioned = t.mentioned := by
  rw [mentioned, mentioned, h.walk_eq,
    Renumbered.filter_eq (p := fun id => (t.decl id).kind.isInterface && t.isVisible id)
      fun id => by rw [h.decl_eq, h.isVisible_eq],
    List.flatMap_map]
  simp only [h.decl_eq]

lemma mentionedNestedTypes_of_renumbered (h : Renumbered σ t u) :
    u.mentionedNestedTypes = t.mentionedNestedTypes.map σ := by
  have hnested : ∀ id, u.isTypeInClass (σ id) = t.isTypeInClass id := fun id => by
    rw [isTypeInClass, isTypeInClass, h.decl_eq, h.parent?_eq, Option.any_map]
    simp only [h.decl_eq]
  simp only [mentionedNestedTypes, h.walk_eq, mentioned_of_renumbered h]
  exact Renumbered.filter_eq (fun id => by rw [hnested, h.decl_eq]) _

lemma agrees_publish (h : Renumbered σ t u) (id : Nat) :
    Progress.Agrees σ (t.publish id) (u.publish (σ id)) :=
  Progress.agrees_edited h id _ _ _

/-- A round makes the same types public. -/
lemma protected_of_renumbered (h : Renumbered σ t u) :
    (u.mentionedNestedTypes.filter fun id => (u.decl id).access = .isProtected) =
      (t.mentionedNestedTypes.filter fun id => (t.decl id).access = .isProtected).map σ := by
  rw [mentionedNestedTypes_of_renumbered h]
  exact Renumbered.filter_eq (fun id => by rw [h.decl_eq]) _

/-- Every round finds the same types, so both trees go through the same number of rounds.  The list
of what has been reported has no influence on them. -/
lemma agrees_publishRounds (t : Tree) (reported : List Nat) : ∀ (u : Tree) (reported' : List Nat),
    Renumbered σ t u →
      Progress.Agrees σ (t.publishRounds reported) (u.publishRounds reported') := by
  induction t, reported using publishRounds.induct with
  | case1 t reported found hnil =>
    intro u reported' h
    have hnil' := (protected_of_renumbered h).trans (congrArg (List.map σ) hnil)
    obtain ⟨htree, hchanges⟩ := @publishRounds_of_nil t reported hnil
    obtain ⟨htree', hchanges'⟩ := @publishRounds_of_nil u reported' hnil'
    exact ⟨by rwa [htree, htree'], by rw [hchanges, hchanges']⟩
  | case2 t reported found secret id ids hcons published ih =>
    intro u reported' h
    have hcons' := (protected_of_renumbered h).trans (congrArg (List.map σ) hcons)
    have hfirst : Progress.Agrees σ (Progress.sweep publish (id :: ids) t)
        (Progress.sweep publish (σ id :: ids.map σ) u) := .sweep agrees_publish h (id :: ids)
    obtain ⟨htree, hchanges⟩ := publishRounds_of_cons reported hcons
    obtain ⟨htree', hchanges'⟩ := publishRounds_of_cons reported' hcons'
    have hrest := ih _ (reported' ++ u.unreported reported') hfirst.trees
    refine ⟨?_, ?_⟩
    · rw [htree, htree']
      exact hrest.trees
    · rw [hchanges, hchanges']
      exact congrArg₂ _ hfirst.changes_eq hrest.changes_eq

/-! ## Pointers to opaque handles -/

/-- Handles are recognised by type, messages included. -/
lemma isUnmarkedHandle_of_renumbered (h : Renumbered σ t u) (id : Nat) :
    u.isUnmarkedHandle (σ id) = t.isUnmarkedHandle id := by
  have hpoints : u.pointsToHandle = t.pointsToHandle := by
    funext type
    unfold pointsToHandle
    cases type.pointee? with
    | none => rfl
    | some handle =>
      simp only [h.typedefTarget?_eq, h.behindTypedefs_eq]
      split
      · rfl
      · congr 1
        funext resolved
        cases resolved.pointee? with
        | none => rfl
        | some inner => exact h.isOpaque_eq inner
  rw [isUnmarkedHandle, isUnmarkedHandle, h.decl_eq, hpoints]

lemma agrees_leaveToHand (h : Renumbered σ t u) (id : Nat) :
    Progress.Agrees σ (t.leaveToHand id) (u.leaveToHand (σ id)) :=
  ⟨(h.edit id .requireManual).edit id .ignore, rfl⟩

lemma agrees_leaveHandlesToHand (h : Renumbered σ t u) :
    Progress.Agrees σ t.leaveHandlesToHand u.leaveHandlesToHand := by
  have hfound : (Logged.filter u.isUnmarkedHandle u.walk).value =
      (Logged.filter t.isUnmarkedHandle t.walk).value.map σ := by
    rw [Logged.value_filter, Logged.value_filter, h.walk_eq]
    exact Renumbered.filter_eq (fun id => by rw [isUnmarkedHandle_of_renumbered h]) _
  have hmarked := Progress.Agrees.sweep agrees_leaveToHand h
    (Logged.filter t.isUnmarkedHandle t.walk).value
  rw [← hfound] at hmarked
  exact ⟨hmarked.trees, hmarked.changes_eq⟩

end Tree

/-! ## Lists of passes -/

namespace Pass

/-- Each pass does to the renumbered tree what it does to the tree. -/
theorem agrees_run (pass : Pass) (h : Renumbered σ t u) :
    Outcome.Agrees σ (pass.run t) (pass.run u) := by
  cases pass with
  | promoteFunctions strip => exact Tree.agrees_promoteFunctions h strip
  | separateNames => exact Outcome.agrees_ofProgress (Tree.agrees_separateAllNames h)
  | classifyEnums => exact Outcome.agrees_ofProgress (Tree.agrees_classifyEnums h)
  | inheritDefaults => exact Outcome.agrees_ofProgress (Tree.agrees_inheritDefaults h)
  | dropDefaults => exact Outcome.agrees_ofProgress (Tree.agrees_dropDefaults h)
  | publishNestedTypes => exact Outcome.agrees_ofProgress (Tree.agrees_publishRounds t [] u [] h)
  | leaveHandlesToHand => exact Outcome.agrees_ofProgress (Tree.agrees_leaveHandlesToHand h)

lemma agrees_runInOrder (passes : List Pass) (h : Renumbered σ t u) :
    Outcome.Agrees σ (runInOrder passes t) (runInOrder passes u) := by
  induction passes generalizing t u with
  | nil => exact Outcome.agrees_unchanged h
  | cons pass passes ih =>
    have hfirst : Outcome.Agrees σ (pass.runListed t) (pass.runListed u) :=
      ((pass.agrees_run h).mapError _).logging _ _
    exact hfirst.andThen (ih hfirst.trees)

end Pass

/-- A list of passes is accepted or refused without a look at the tree. -/
theorem Tree.agrees_applyPasses (h : Renumbered σ t u) (passes : List Pass) :
    Outcome.Agrees σ (t.applyPasses passes) (u.applyPasses passes) := by
  rw [applyPasses, applyPasses]
  cases Pass.checkOrder passes with
  | error e => exact Outcome.agrees_fail h e
  | ok _ => exact Pass.agrees_runInOrder passes h

end Bindery
