import Bindery.Proofs.Footprint
import Bindery.Proofs.Naming.Normalize

/-!
# Keeping out and naming do not touch each other

Selectors and naming rules go by the names in the header, so nothing that is looked up depends on
what has been renamed or kept out before.  Beyond that, suppressing looks at the marks of declarations
and normalising at their names, and neither changes what the other looks at.  So the two can be done
in either order (`normaliseNames_suppress`).
-/

namespace Bindery.Tree

variable {origin t u : Tree} {region : Region}

/-! ## What suppressing looks at -/

lemma alike_ignoreOne (hregion : ∀ kind, (.ignored, kind) ∈ region)
    (h : origin.Alike region t u) (id : Nat) :
    Progress.Alike origin region (t.ignoreOne id) (u.ignoreOne id) := by
  rw [ignoreOne, ignoreOne, h.ignored_eq (hregion _)]
  split
  · exact .unchanged h
  · exact .edited h (show Edit.Fits .ignore _ from trivial) _ _

lemma alike_suppress (hregion : ∀ kind, (.ignored, kind) ∈ region)
    (h : origin.Alike region t u) (selectors : List Selector) :
    Outcome.Alike origin region (t.suppress selectors) (u.suppress selectors) := by
  have hselected : (u.selectAll selectors).value = (t.selectAll selectors).value := by
    rw [selectAll_of_develops h.right, selectAll_of_develops h.left]
  unfold suppress ignoreSelected
  rw [hselected]
  cases (t.selectAll selectors).value with
  | error e => exact ⟨h, rfl⟩
  | ok ids =>
    have hall : Progress.Alike origin region (t.ignoreAll ids) (u.ignoreAll ids) :=
      .sweep (fun id _ _ _ h => alike_ignoreOne hregion h id) h
    exact ⟨hall.tree, congrArg Except.ok hall.changes_eq⟩

/-- Selectors go by names in the header, so suppressing depends on what is hidden, and on nothing
else that can change. -/
lemma hasFootprint_suppress (selectors : List Selector) :
    HasFootprint (.ofFields [.ignored]) (.ofFields [.ignored])
      fun t : Tree => t.suppress selectors where
  changes_subset := subset_rfl
  keeps t := (t.develops_suppress selectors).alike (t.size_suppress selectors)
  alike h := alike_suppress (by simp) h selectors

/-! ## What normalising looks at -/

/-- Whether a prefix comes off depends on the name and the name in the header. -/
lemma alike_takeOffPrefixOf (hregion : ∀ kind, (.name, kind) ∈ region) (rule : NamePrefix)
    (h : origin.Alike region t u) (id : Nat) :
    Progress.Alike origin region (takeOffPrefixOf rule t id) (takeOffPrefixOf rule u id) := by
  unfold takeOffPrefixOf
  simp only [h.name_eq (hregion _), h.reads Decl.headerName Decl.headerName_shape]
  split
  · exact .unchanged h
  · split
    · exact ⟨h, rfl⟩
    · exact .edited h (show Edit.Fits (.rename _) _ from trivial) _ _

lemma alike_takeOffPrefix (hregion : ∀ kind, (.name, kind) ∈ region) (rule : NamePrefix)
    (h : origin.Alike region t u) :
    Progress.Alike origin region (t.takeOffPrefix rule) (u.takeOffPrefix rule) := by
  unfold takeOffPrefix
  rw [prefixTargets_of_develops h.right, prefixTargets_of_develops h.left]
  exact .sweep (fun id _ _ _ h => alike_takeOffPrefixOf hregion rule h id) h

lemma alike_giveName (hregion : ∀ kind, (.name, kind) ∈ region) (name : String)
    (h : origin.Alike region t u) (id : Nat) :
    Progress.Alike origin region (giveName name t id) (giveName name u id) := by
  rw [giveName, giveName, h.name_eq (hregion _)]
  split
  · exact .unchanged h
  · exact .edited h (show Edit.Fits (.rename _) _ from trivial) _ _

/-- Which declarations a renaming means is told by header names, so both trees fail at the same one,
or neither. -/
lemma alike_giveNames (hregion : ∀ kind, (.name, kind) ∈ region) (renames : List Renaming)
    (h : origin.Alike region t u) :
    Outcome.Alike origin region (t.giveNames renames) (u.giveNames renames) := by
  induction renames generalizing t u with
  | nil => exact ⟨h, rfl⟩
  | cons rename renames ih =>
    rw [giveNames, giveNames, h.declaredAs_eq]
    cases t.declaredAs rename.headerName with
    | nil => exact ⟨h, rfl⟩
    | cons id ids =>
      have hnamed : Progress.Alike origin region
          (Progress.sweep (giveName rename.name) (id :: ids) t)
          (Progress.sweep (giveName rename.name) (id :: ids) u) :=
        .sweep (fun i _ _ _ h => alike_giveName hregion rename.name h i) h
      exact hnamed.outcome.andThen (ih hnamed.tree)

lemma alike_capitaliseOne (hregion : ∀ kind, (.name, kind) ∈ region)
    (targets : List CapitalTarget) (h : origin.Alike region t u) (id : Nat) :
    Progress.Alike origin region (capitaliseOne targets t id) (capitaliseOne targets u id) := by
  unfold capitaliseOne
  simp only [h.kind_eq, h.name_eq (hregion _)]
  split
  · exact alike_giveName hregion _ h id
  · exact .unchanged h

lemma alike_capitalise (hregion : ∀ kind, (.name, kind) ∈ region) (targets : List CapitalTarget)
    (h : origin.Alike region t u) :
    Progress.Alike origin region (t.capitalise targets) (u.capitalise targets) := by
  rw [capitalise, capitalise, h.walk_eq]
  exact .sweep (fun id _ _ _ h => alike_capitaliseOne hregion targets h id) h

lemma alike_normaliseNames (hregion : ∀ kind, (.name, kind) ∈ region)
    (h : origin.Alike region t u) (rule : NamePrefix) (renames : List Renaming)
    (targets : List CapitalTarget) :
    Outcome.Alike origin region (t.normaliseNames rule renames targets)
      (u.normaliseNames rule renames targets) := by
  have hprefix : Outcome.Alike origin region (.ofProgress (t.takeOffPrefix rule) : Outcome PassError)
      (.ofProgress (u.takeOffPrefix rule)) := (alike_takeOffPrefix hregion rule h).outcome
  have hnamed : Outcome.Alike origin region
      ((Outcome.ofProgress (t.takeOffPrefix rule)).andThen (·.giveNames renames))
      ((Outcome.ofProgress (u.takeOffPrefix rule)).andThen (·.giveNames renames)) :=
    hprefix.andThen (alike_giveNames hregion renames hprefix.tree)
  exact hnamed.andThen (alike_capitalise hregion targets hnamed.tree).outcome

/-- Naming rules look at names only, and change nothing else. -/
lemma hasFootprint_normaliseNames (rule : NamePrefix) (renames : List Renaming)
    (targets : List CapitalTarget) :
    HasFootprint (.ofFields [.name]) (.ofFields [.name])
      fun t : Tree => t.normaliseNames rule renames targets where
  changes_subset := subset_rfl
  keeps t := (t.develops_normaliseNames rule renames targets).alike
    (t.size_normaliseNames rule renames targets)
  alike h := alike_normaliseNames (by simp) h rule renames targets

/-! ## Either order -/

/-- Keeping declarations out and normalising names can be done in either order: each gives the result
that it gives alone, be it an error or a number of changes, and the tree is the same. -/
theorem normaliseNames_suppress (t : Tree) (selectors : List Selector) (rule : NamePrefix)
    (renames : List Renaming) (targets : List CapitalTarget) :
    ((t.suppress selectors).tree.normaliseNames rule renames targets).tree =
        ((t.normaliseNames rule renames targets).tree.suppress selectors).tree ∧
      ((t.suppress selectors).tree.normaliseNames rule renames targets).result =
        (t.normaliseNames rule renames targets).result ∧
      ((t.normaliseNames rule renames targets).tree.suppress selectors).result =
        (t.suppress selectors).result := by
  refine (hasFootprint_normaliseNames rule renames targets).commute
    (hasFootprint_suppress selectors) ?_ ?_ t
  all_goals
    refine Set.disjoint_left.2 fun x hx hx' => ?_
    simp only [Region.mem_ofFields_iff, List.mem_singleton] at hx hx'
    rw [hx] at hx'
    exact absurd hx' (by decide)

end Bindery.Tree
