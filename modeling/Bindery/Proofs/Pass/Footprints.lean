import Bindery.Proofs.Footprint
import Bindery.Proofs.Pass.Run

/-!
# What the passes look at

Each pass finds in alike trees the same things to do, if they are alike in what it looks at
(`alike_run`).  All but the first have a footprint (`hasFootprint_run`); the first adds declarations,
so it leaves no region alone.
-/

namespace Bindery

namespace Tree

variable {origin t u : Tree} {region : Region}

/-! ## Names that clash -/

/-- Clashes are told from names and parameter types; the latter are part of the shape. -/
lemma alike_separateNames (hname : ∀ kind, (.name, kind) ∈ region) (taken : List String)
    (uses : List NameUse) (ids : List Nat) (h : origin.Alike region t u) :
    Progress.Alike origin region (separateNames taken uses ids t)
      (separateNames taken uses ids u) := by
  induction ids generalizing taken uses t u with
  | nil => exact .unchanged h
  | cons id ids ih =>
    have hkey := h.reads (fun d => d.signature?.map (·.overloadKey))
      (fun d => by simp [Decl.signature?_shape, Function.comp_def]) id
    have huse : NameUse.ofDecl (u.decl id) = NameUse.ofDecl (t.decl id) := by
      rw [NameUse.ofDecl, NameUse.ofDecl, h.name_eq (hname _)]
      exact congrArg _ hkey
    rw [separateNames, separateNames, huse]
    split
    · have hrenamed (name : String) : origin.Alike region (t.edit id (.rename name))
          (u.edit id (.rename name)) := h.edit (show Edit.Fits (.rename name) _ from trivial)
      exact Progress.Alike.andThen ⟨hrenamed _, rfl⟩ (ih _ _ (hrenamed _))
    · exact ih _ _ h

/-- Which declarations of a scope need a name depends on which of them are hidden. -/
lemma alike_separateNamesIn (hname : ∀ kind, (.name, kind) ∈ region)
    (hignored : ∀ kind, (.ignored, kind) ∈ region) (h : origin.Alike region t u) (scope : Nat) :
    Progress.Alike origin region (t.separateNamesIn scope) (u.separateNamesIn scope) := by
  have hnamed : u.namedChildren scope = t.namedChildren scope := by
    rw [namedChildren, namedChildren, h.children_eq]
    exact List.filter_congr fun c _ => by rw [h.ignored_eq (hignored _)]
  have hnames : (fun id => (u.decl id).name) = fun id => (t.decl id).name :=
    funext fun id => h.name_eq (hname _)
  rw [separateNamesIn, separateNamesIn, hnamed, hnames]
  exact alike_separateNames hname _ _ _ h

lemma alike_separateAllNames (hname : ∀ kind, (.name, kind) ∈ region)
    (hignored : ∀ kind, (.ignored, kind) ∈ region) (h : origin.Alike region t u) :
    Progress.Alike origin region t.separateAllNames u.separateAllNames := by
  have hscopes : (u.walk.filter fun id => !(u.children id).isEmpty) =
      t.walk.filter fun id => !(t.children id).isEmpty := by
    rw [h.walk_eq]
    exact List.filter_congr fun id _ => by rw [h.children_eq]
  rw [separateAllNames, separateAllNames, hscopes]
  exact .sweep (fun scope _ _ _ h => alike_separateNamesIn hname hignored h scope) h

/-! ## Enumerations of flags -/

/-- Only enumerations are classified, so the walk may pass over anything else. -/
lemma classifyEnum_of_kind_ne {id : Nat} (h : (t.decl id).kind ≠ .enumType) :
    t.classifyEnum id = .unchanged t := by
  unfold classifyEnum
  split
  · next variants isFlags hpayload => exact absurd (by rw [Decl.kind, hpayload]; rfl) h
  · rfl

lemma alike_classifyEnum (hflags : (.flags, .enumType) ∈ region) (h : origin.Alike region t u)
    (id : Nat) : Progress.Alike origin region (t.classifyEnum id) (u.classifyEnum id) := by
  by_cases hkind : (t.decl id).kind = .enumType
  · have hpayload : (u.decl id).payload = (t.decl id).payload := by
      refine h.payload_eq ?_
      rw [hkind]
      simp [Decl.HasField, Kind.isCallable, hflags]
    rw [classifyEnum, classifyEnum, hpayload]
    split
    · dsimp only
      split
      · exact .unchanged h
      · exact .edited h (show Edit.Fits (.setFlags _) _ from trivial) _ _
    · exact .unchanged h
  · rw [classifyEnum_of_kind_ne hkind, classifyEnum_of_kind_ne (h.kind_eq id ▸ hkind)]
    exact .unchanged h

lemma alike_classifyEnums (hflags : (.flags, .enumType) ∈ region)
    (h : origin.Alike region t u) :
    Progress.Alike origin region t.classifyEnums u.classifyEnums := by
  rw [classifyEnums, classifyEnums, h.walk_eq]
  exact .sweep (fun id _ _ _ h => alike_classifyEnum hflags h id) h

/-! ## Default values -/

/-- What is swept over if it is not kept out. -/
lemma filter_open_eq (h : origin.Alike region t u) (test : Kind → Bool)
    (hignored : ∀ kind, test kind = true → (.ignored, kind) ∈ region) :
    (u.walk.filter fun id => test (u.decl id).kind && !(u.decl id).ignored) =
      t.walk.filter fun id => test (t.decl id).kind && !(t.decl id).ignored := by
  rw [h.walk_eq]
  refine List.filter_congr fun id _ => ?_
  rw [h.kind_eq]
  cases htest : test (t.decl id).kind with
  | false => rfl
  | true => rw [h.ignored_eq (hignored _ htest)]

/-- Where the signatures have the same shape, default values that fit one fit the other. -/
lemma alike_setDefaults (h : origin.Alike region t u) {id : Nat} {s : Signature}
    {values : List (Option String)} (hs : (t.decl id).signature? = some s)
    (hlength : values.length = s.arguments.length) :
    origin.Alike region (t.edit id (.setDefaults values)) (u.edit id (.setDefaults values)) := by
  refine h.edit (show Edit.Fits (.setDefaults values) _ from fun s' hs' => ?_)
  rw [hs] at hs'
  cases hs'
  exact hlength

/-- What a method says of itself that overriding goes by. -/
lemma method?_map_eq (h : origin.Alike region t u) (id : Nat) :
    ((u.decl id).method?.map fun m => (m.isStatic, m.isVirtual, m.signature.parameterTypes)) =
      (t.decl id).method?.map fun m => (m.isStatic, m.isVirtual, m.signature.parameterTypes) :=
  h.reads (fun d => d.method?.map fun m => (m.isStatic, m.isVirtual, m.signature.parameterTypes))
    (fun d => by simp [Decl.method?_shape, Function.comp_def]) id

/-- Overriding goes by header names and parameter types, which no edit changes. -/
lemma overrides_eq (h : origin.Alike region t u) (id base : Nat) :
    u.overrides id base = t.overrides id base := by
  have hown := method?_map_eq h id
  have hother := method?_map_eq h base
  have hheader := h.reads Decl.headerName Decl.headerName_shape
  unfold overrides
  rw [hheader, hheader]
  revert hown hother
  cases (u.decl id).method? <;> cases (t.decl id).method? <;> cases (u.decl base).method? <;>
    cases (t.decl base).method? <;> simp +contextual [Signature.hasSameParameters]

lemma overridden_eq (h : origin.Alike region t u) (id : Nat) :
    u.overridden id = t.overridden id := by
  have hstatic := method?_map_eq h id
  unfold overridden
  rw [h.parent?_eq]
  cases howner : t.parent? id with
  | none => cases (u.decl id).method? <;> cases (t.decl id).method? <;> rfl
  | some owner =>
    have hancestry : u.ancestry u.ids (u.decl owner).bases =
        t.ancestry t.ids (t.decl owner).bases := by
      rw [h.ids_eq, h.reads Decl.bases Decl.bases_shape, ancestry_of_develops h.right,
        ancestry_of_develops h.left]
    have hfound : ∀ base, (u.childrenOfKind base .method).filter (u.overrides id) =
        (t.childrenOfKind base .method).filter (t.overrides id) := by
      intro base
      rw [h.childrenOfKind_eq]
      exact List.filter_congr fun m _ => overrides_eq h id m
    revert hstatic
    cases (u.decl id).method? <;> cases (t.decl id).method? <;>
      simp +contextual [hancestry, hfound]

/-- What a method inherits is told from the default values of the methods it overrides. -/
lemma alike_inheritDefaultsOf (hdefaults : ∀ kind, (.defaults, kind) ∈ region)
    (h : origin.Alike region t u) (id : Nat) :
    Progress.Alike origin region (t.inheritDefaultsOf id) (u.inheritDefaultsOf id) := by
  have hsignature : ∀ i, (u.decl i).signature? = (t.decl i).signature? :=
    fun i => h.signature?_eq (hdefaults _)
  have hvalues : ∀ s, u.defaultsWithInherited id s = t.defaultsWithInherited id s := by
    intro s
    simp only [defaultsWithInherited, inheritedDefault?, overridden_eq h, hsignature]
  unfold inheritDefaultsOf
  rw [hsignature]
  cases hs : (t.decl id).signature? with
  | none => exact .unchanged h
  | some s =>
    dsimp only
    rw [hvalues]
    exact ⟨alike_setDefaults h hs (length_defaultsWithInherited t id s), rfl⟩

lemma alike_inheritDefaults (hdefaults : ∀ kind, (.defaults, kind) ∈ region)
    (hignored : (.ignored, .method) ∈ region) (h : origin.Alike region t u) :
    Progress.Alike origin region t.inheritDefaults u.inheritDefaults := by
  have hmethods := filter_open_eq h (· = .method) fun kind hkind => by
    rwa [of_decide_eq_true hkind]
  unfold inheritDefaults
  rw [hmethods]
  exact .sweep (fun id _ _ _ h => alike_inheritDefaultsOf hdefaults h id) h

lemma alike_dropDefaultsOf (hdefaults : ∀ kind, (.defaults, kind) ∈ region)
    (h : origin.Alike region t u) (id : Nat) :
    Progress.Alike origin region (t.dropDefaultsOf id) (u.dropDefaultsOf id) := by
  unfold dropDefaultsOf
  rw [h.signature?_eq (hdefaults _)]
  cases hs : (t.decl id).signature? with
  | none => exact .unchanged h
  | some s => exact ⟨alike_setDefaults h hs (by simp), rfl⟩

lemma alike_dropDefaults (hdefaults : ∀ kind, (.defaults, kind) ∈ region)
    (hignored : ∀ kind, kind.isCallable = true → (.ignored, kind) ∈ region)
    (h : origin.Alike region t u) :
    Progress.Alike origin region t.dropDefaults u.dropDefaults := by
  unfold dropDefaults
  rw [filter_open_eq h Kind.isCallable hignored]
  exact .sweep (fun id _ _ _ h => alike_dropDefaultsOf hdefaults h id) h

/-! ## Visibility -/

/-- A declaration is visible in both if access and hiding are the same all the way up. -/
lemma isVisible_eq (haccess : ∀ kind, (.access, kind) ∈ region)
    (hignored : ∀ kind, (.ignored, kind) ∈ region) (h : origin.Alike region t u) (id : Nat) :
    u.isVisible id = t.isVisible id := by
  rw [isVisible, isVisible, h.lineage_eq]
  congr 1
  funext i
  rw [Decl.isExposed, Decl.isExposed, h.ignored_eq (hignored _), h.access_eq (haccess _)]

lemma isTypeInClass_eq (hignored : ∀ kind, (.ignored, kind) ∈ region)
    (h : origin.Alike region t u) (id : Nat) : u.isTypeInClass id = t.isTypeInClass id := by
  rw [isTypeInClass, isTypeInClass, h.kind_eq, h.ignored_eq (hignored _), h.parent?_eq]
  simp only [h.kind_eq]

lemma mentionedNestedTypes_eq (haccess : ∀ kind, (.access, kind) ∈ region)
    (hignored : ∀ kind, (.ignored, kind) ∈ region) (h : origin.Alike region t u) :
    u.mentionedNestedTypes = t.mentionedNestedTypes := by
  have hmentioned : u.mentioned = t.mentioned := by
    unfold mentioned
    simp only [h.walk_eq, h.kind_eq, isVisible_eq haccess hignored h,
      h.reads Decl.references Decl.references_shape]
  unfold mentionedNestedTypes
  simp only [h.walk_eq, hmentioned, isTypeInClass_eq hignored h,
    h.reads Decl.usr Decl.usr_shape]

/-- The rounds go in step: both find the same types, and go on from trees that are alike again.
Which private types have been reported makes no difference to the tree. -/
lemma alike_publishRounds (haccess : ∀ kind, (.access, kind) ∈ region)
    (hignored : ∀ kind, (.ignored, kind) ∈ region) (t : Tree) (reported : List Nat) :
    ∀ (u : Tree) (reported' : List Nat), origin.Alike region t u →
      Progress.Alike origin region (t.publishRounds reported) (u.publishRounds reported') := by
  have hround : ∀ {t u : Tree}, origin.Alike region t u →
      (u.mentionedNestedTypes.filter fun id => (u.decl id).access = .isProtected) =
        t.mentionedNestedTypes.filter fun id => (t.decl id).access = .isProtected := by
    intro t u h
    rw [mentionedNestedTypes_eq haccess hignored h]
    exact List.filter_congr fun id _ => by rw [h.access_eq (haccess _)]
  induction t, reported using publishRounds.induct with
  | case1 t reported found hnil =>
    intro u reported' h
    have hidle : (t.publishRounds reported).Idle t := publishRounds_of_nil hnil
    have hidle' : (u.publishRounds reported').Idle u := publishRounds_of_nil ((hround h).trans hnil)
    exact ⟨by rwa [hidle.1, hidle'.1], hidle'.2.trans hidle.2.symm⟩
  | case2 t reported found secret id ids hcons published ih =>
    intro u reported' h
    have hpublished : Progress.Alike origin region (Progress.sweep publish (id :: ids) t)
        (Progress.sweep publish (id :: ids) u) :=
      .sweep (fun i _ _ _ h => .edited h (show Edit.Fits (.setAccess _) _ from trivial) _ _) h
    obtain ⟨htree, hchanges⟩ := publishRounds_of_cons reported hcons
    obtain ⟨htree', hchanges'⟩ := publishRounds_of_cons reported' ((hround h).trans hcons)
    have hrest := ih _ (reported' ++ u.unreported reported') hpublished.tree
    refine ⟨?_, ?_⟩
    · rw [htree, htree']
      exact hrest.tree
    · rw [hchanges, hchanges', hpublished.changes_eq]
      exact congrArg _ hrest.changes_eq

/-! ## Handles -/

/-- What a type points to is read off typedefs and definitions of classes, which are part of the
shape. -/
lemma pointsToHandle_eq (h : origin.Alike region t u) (type : QualType) :
    u.pointsToHandle type = t.pointsToHandle type := by
  have htypedef : ∀ type, u.typedefTarget? type = t.typedefTarget? type := by
    intro type
    rw [h.right.typedefTarget?_eq, h.left.typedefTarget?_eq]
  unfold pointsToHandle
  simp only [htypedef, h.behindTypedefs_eq, h.isOpaque_eq]

lemma isUnmarkedHandle_of_kind_ne {id : Nat} (h : (t.decl id).kind ≠ .property) :
    t.isUnmarkedHandle id = return false := by
  unfold isUnmarkedHandle
  split
  · next type hpayload => exact absurd (by rw [Decl.kind, hpayload]; rfl) h
  · rfl

lemma isUnmarkedHandle_eq (hmanual : (.manual, .property) ∈ region)
    (h : origin.Alike region t u) (id : Nat) : u.isUnmarkedHandle id = t.isUnmarkedHandle id := by
  by_cases hkind : (t.decl id).kind = .property
  · have hpayload : (u.decl id).payload = (t.decl id).payload := by
      refine h.payload_eq ?_
      rw [hkind]
      simp [Decl.HasField, Kind.isCallable, hmanual]
    unfold isUnmarkedHandle
    simp only [hpayload, pointsToHandle_eq h]
  · rw [isUnmarkedHandle_of_kind_ne hkind, isUnmarkedHandle_of_kind_ne (h.kind_eq id ▸ hkind)]

lemma alike_leaveHandlesToHand (hmanual : (.manual, .property) ∈ region)
    (h : origin.Alike region t u) :
    Progress.Alike origin region t.leaveHandlesToHand u.leaveHandlesToHand := by
  have hfound : Logged.filter u.isUnmarkedHandle u.walk =
      Logged.filter t.isUnmarkedHandle t.walk := by
    rw [h.walk_eq, funext (isUnmarkedHandle_eq hmanual h)]
  have hmarked : Progress.Alike origin region
      (Progress.sweep leaveToHand (Logged.filter t.isUnmarkedHandle t.walk).value t)
      (Progress.sweep leaveToHand (Logged.filter t.isUnmarkedHandle t.walk).value u) := by
    refine .sweep (fun id _ t u h => ⟨?_, rfl⟩) h
    have hmark := h.edit (show Edit.Fits .requireManual (t.decl id) from trivial)
    exact hmark.edit (show Edit.Fits .ignore _ from trivial)
  unfold leaveHandlesToHand
  rw [hfound]
  exact ⟨hmarked.tree, hmarked.changes_eq⟩

/-! ## Promotion -/

section Promotion

variable (hregion : ∀ field kind, field ≠ .flags → (field, kind) ∈ region)
include hregion

/-- Outside of enumerations the region covers every field a declaration has. -/
lemma decl_eq_of_kind_ne (h : origin.Alike region t u) {id : Nat}
    (hkind : (t.decl id).kind ≠ .enumType) : u.decl id = t.decl id := by
  refine (Decl.eq_of_shape (h.shape_eq id).symm fun field => h.sameIn fun hfield => ?_).symm
  refine hregion field _ ?_
  rintro rfl
  exact hkind hfield

lemma isFreeFunction_eq (h : origin.Alike region t u) (id : Nat) :
    u.isFreeFunction id = t.isFreeFunction id := by
  rw [isFreeFunction, isFreeFunction, h.kind_eq, h.inNamespaceScope_eq,
    h.ignored_eq (hregion _ _ (by decide))]

/-- A promotion copies the function as a whole, so every field of it has to agree. -/
lemma promotion?_eq (h : origin.Alike region t u) (strip : Bool) (id : Nat) :
    u.promotion? strip id = t.promotion? strip id := by
  have hsignature : (u.decl id).signature? = (t.decl id).signature? :=
    h.signature?_eq (hregion _ _ (by decide))
  unfold promotion?
  rw [hsignature]
  cases hs : (t.decl id).signature? with
  | none => rfl
  | some s =>
    have hkind : (t.decl id).kind ≠ .enumType := by
      intro hkind
      have hcallable := Decl.signature?_isSome_iff (d := t.decl id)
      rw [hs, hkind] at hcallable
      exact absurd hcallable (by simp [Kind.isCallable])
    have hclass : ∀ type, u.classBehind type = t.classBehind type := by
      intro type
      rw [h.right.classBehind_eq, h.left.classBehind_eq]
    have hopen : ∀ c, (u.decl c).ignored = (t.decl c).ignored :=
      fun c => h.ignored_eq (hregion _ _ (by decide))
    have hcomplete := h.reads Decl.isCompleteClass Decl.isCompleteClass_shape
    have htarget : u.promotionTarget? s = t.promotionTarget? s := by
      simp only [promotionTarget?, hclass, hopen, hcomplete]
    have hpromoted : u.promotedTo? strip (t.decl id) = t.promotedTo? strip (t.decl id) := by
      funext target
      simp only [promotedTo?, h.get?_eq, h.reads Decl.headerName Decl.headerName_shape]
    simp only [htarget, decl_eq_of_kind_ne hregion h hkind, hpromoted]

lemma alike_promoteOne (strip : Bool) (h : origin.Alike region t u) (id : Nat) :
    Outcome.Alike origin region (t.promoteOne strip id) (u.promoteOne strip id) := by
  have hsame := promotion?_eq hregion h strip id
  rcases promoteOne_cases strip t id with ⟨hnot, hidle⟩ | ⟨p, grown, hp, hgrown, htree, hresult⟩
  · have hnone : (u.promotion? strip id).value = none := by
      rw [hsame, promotion?_eq_none_iff.2 hnot]
    have hidle' : (u.promoteOne strip id).Idle u := by
      unfold promoteOne
      simp only [hnone]
      exact ⟨rfl, rfl⟩
    exact ⟨by rwa [hidle.1, hidle'.1], hidle'.2.trans hidle.2.symm⟩
  · obtain ⟨-, -, hmethod, -⟩ := of_promotion? hp
    obtain ⟨grown', hgrown', halike⟩ := h.insert hmethod hgrown
    have hp' : (u.promotion? strip id).value = some p := by rw [hsame, hp]
    have htree' : (u.promoteOne strip id).tree = grown'.edit id .ignore := by
      simp only [promoteOne, hp', hgrown']
    have hresult' : (u.promoteOne strip id).result = .ok 1 := by
      simp only [promoteOne, hp', hgrown']
    refine ⟨?_, hresult'.trans hresult.symm⟩
    rw [htree, htree']
    exact halike.edit (show Edit.Fits .ignore _ from trivial)

lemma alike_promoteFunctions (strip : Bool) (h : origin.Alike region t u) :
    Outcome.Alike origin region (t.promoteFunctions strip) (u.promoteFunctions strip) := by
  rw [promoteFunctions, promoteFunctions, h.walk_eq, funext (isFreeFunction_eq hregion h)]
  exact .sweep (fun id _ _ _ h => alike_promoteOne hregion strip h id) h

end Promotion

/-- The properties alone are left to hand. -/
lemma kind_of_isUnmarkedHandle {id : Nat} (h : (t.isUnmarkedHandle id).value = true) :
    (t.decl id).kind = .property := by
  obtain ⟨type, hpayload, -⟩ := isUnmarkedHandle_iff.1 h
  rw [Decl.kind, hpayload]
  rfl

/-- Handles are looked for among properties only. -/
lemma decl_leaveHandlesToHand_of_kind_ne (t : Tree) {id : Nat}
    (hkind : (t.decl id).kind ≠ .property) : t.leaveHandlesToHand.tree.decl id = t.decl id := by
  refine Progress.sweep_invariant (I := fun u => u.decl id = t.decl id) (fun i hi u hu => ?_) rfl
  rw [Logged.value_filter, List.mem_filter] at hi
  have hne : i ≠ id := by
    rintro rfl
    exact hkind (kind_of_isUnmarkedHandle hi.2)
  simp only [leaveToHand]
  rw [decl_edit_of_ne hne, decl_edit_of_ne hne, hu]

end Tree

namespace Pass

variable {origin t u : Tree}

/-! ## All passes -/

/-- The fields that a pass looks at. -/
def looksAt : Pass → Region
  | .promoteFunctions _ => (.ofFields [.flags])ᶜ
  | .separateNames => .ofFields [.name, .ignored]
  | .classifyEnums => .ofFields [.flags]
  | .inheritDefaults => .ofFields [.defaults] ∪ {(.ignored, .method)}
  | .dropDefaults => .ofFields [.defaults] ∪ {x | x.1 = .ignored ∧ x.2.isCallable = true}
  | .publishNestedTypes => .ofFields [.access, .ignored]
  | .leaveHandlesToHand => {x | x.1 ∈ [.ignored, .manual] ∧ x.2 = .property}

/-- The fields that a pass changes, apart from what it adds. -/
def changes : Pass → Region
  | .leaveHandlesToHand => {x | x.1 ∈ [.ignored, .manual] ∧ x.2 = .property}
  | pass => .ofFields pass.touches

/-- Each pass does the same to two trees that agree where it looks. -/
theorem alike_run (pass : Pass) (h : origin.Alike pass.looksAt t u) :
    Outcome.Alike origin pass.looksAt (pass.run t) (pass.run u) := by
  cases pass with
  | promoteFunctions strip => exact Tree.alike_promoteFunctions (by simp [looksAt]) strip h
  | separateNames =>
    exact (Tree.alike_separateAllNames (by simp [looksAt]) (by simp [looksAt]) h).outcome
  | classifyEnums => exact (Tree.alike_classifyEnums (by simp [looksAt]) h).outcome
  | inheritDefaults =>
    exact (Tree.alike_inheritDefaults (by simp [looksAt]) (by simp [looksAt]) h).outcome
  | dropDefaults =>
    exact (Tree.alike_dropDefaults (by simp [looksAt]) (by simp +contextual [looksAt]) h).outcome
  | publishNestedTypes =>
    exact (Tree.alike_publishRounds (by simp [looksAt]) (by simp [looksAt]) t [] u [] h).outcome
  | leaveHandlesToHand => exact (Tree.alike_leaveHandlesToHand (by simp [looksAt]) h).outcome

/-- What a pass does not change is the same before and after it. -/
lemma keeps_run {pass : Pass} (hpass : pass.kind ≠ .promoteFunctions) (t : Tree) :
    t.Alike pass.changesᶜ t (pass.run t).tree := by
  have hrest := (develops_run pass t).alike (size_run hpass t)
  cases pass with
  | leaveHandlesToHand =>
    refine { hrest with same := fun field id hregion => ?_ }
    by_cases hkind : (t.decl id).kind = .property
    · refine hrest.same field id fun hfield => hregion ⟨?_, hkind⟩
      simpa [touches] using hfield
    · rw [run, Outcome.tree_ofProgress, Tree.decl_leaveHandlesToHand_of_kind_ne t hkind]
      exact .refl _ _
  | _ => exact hrest

/-- A pass that adds nothing has a footprint. -/
theorem hasFootprint_run {pass : Pass} (hpass : pass.kind ≠ .promoteFunctions) :
    HasFootprint pass.looksAt pass.changes pass.run where
  changes_subset := by
    rintro ⟨field, kind⟩ hfield
    cases pass <;> simp_all [looksAt, changes, touches, Pass.kind]
  keeps := keeps_run hpass
  alike := alike_run pass

end Pass

end Bindery
