import Bindery.Proofs.Pass.DefaultChanges
import Bindery.Proofs.Pass.Footprints
import Bindery.Proofs.Pass.Hierarchy

/-!
# All methods inherit at once

Default values are inherited method by method, and a later method reads what an earlier one has
taken over.  If no class derives from itself, and no class has two virtual methods of one name and
the same parameter types, this makes no difference: every method gets what it inherits by the tree
as it was before the pass (`inheritDefaults_simultaneous`).

For what a base has taken over comes from a base of it, and the search would have come to that one
next (`inheritedDefault?_of_between`).  So the order in which the classes are declared does not
matter.
-/

namespace Bindery

/-! ## Lists of default values -/

/-- Every parameter behind the one at `i` has a default value, be it inherited. -/
def CoveredBehind (own : List (Option String)) (inherited : Nat → Option String) (i : Nat) : Prop :=
  ∀ j < own.length, i < j → own[j]?.join.isSome = true ∨ (inherited j).isSome = true

instance (own : List (Option String)) (inherited : Nat → Option String) (i : Nat) :
    Decidable (CoveredBehind own inherited i) := inferInstanceAs (Decidable (∀ j < _, _))

/-- Each parameter has its own default value, else the inherited one if every later parameter has
one or the other. -/
def simultaneousDefaults (own : List (Option String)) (inherited : Nat → Option String) :
    List (Option String) :=
  own.mapIdx fun i value => value.or (if CoveredBehind own inherited i then inherited i else none)

section Lists

variable {own : List (Option String)} {inherited : Nat → Option String} {i : Nat}

lemma coveredBehind_cons_zero_iff {value : Option String} :
    CoveredBehind (value :: own) inherited 0 ↔ AllDefault own fun i => inherited (i + 1) := by
  constructor
  · exact fun h i hi => h (i + 1) (Nat.succ_lt_succ hi) (Nat.succ_pos i)
  · rintro h (_ | j) hj hpos
    · exact absurd hpos (Nat.lt_irrefl 0)
    · exact h j (Nat.lt_of_succ_lt_succ hj)

lemma coveredBehind_cons_succ_iff {value : Option String} :
    CoveredBehind (value :: own) inherited (i + 1) ↔
      CoveredBehind own (fun i => inherited (i + 1)) i := by
  constructor
  · exact fun h j hj hlt => h (j + 1) (Nat.succ_lt_succ hj) (Nat.succ_lt_succ hlt)
  · rintro h (_ | j) hj hlt
    · exact absurd hlt (Nat.not_lt_zero _)
    · exact h j (Nat.lt_of_succ_lt_succ hj) (Nat.lt_of_succ_lt_succ hlt)

/-- Completing from the back and looking at each place by itself come to the same. -/
lemma completedDefaults_eq_simultaneousDefaults (own : List (Option String))
    (inherited : Nat → Option String) :
    completedDefaults own inherited = simultaneousDefaults own inherited := by
  induction own generalizing inherited with
  | nil => rfl
  | cons value own ih =>
    simp only [completedDefaults_cons, simultaneousDefaults, List.mapIdx_cons, ih,
      coveredBehind_cons_zero_iff, coveredBehind_cons_succ_iff]

/-- A completed default value is the method's own one, or the inherited one where it has none. -/
lemma getElem?_completedDefaults_cases (own : List (Option String))
    (inherited : Nat → Option String) (i : Nat) :
    (completedDefaults own inherited)[i]?.join = own[i]?.join ∨
      own[i]?.join = none ∧ (completedDefaults own inherited)[i]?.join = inherited i := by
  rw [completedDefaults_eq_simultaneousDefaults, simultaneousDefaults, List.getElem?_mapIdx]
  cases own[i]? with
  | none => exact .inl rfl
  | some value =>
    cases value with
    | some value => exact .inl rfl
    | none =>
      by_cases hcovered : CoveredBehind own inherited i
      · exact .inr ⟨rfl, by simp [hcovered]⟩
      · exact .inl (by simp [hcovered])

end Lists

namespace Tree

variable {t u : Tree} {id b c m i : Nat}

/-! ## Where a default value comes from -/

/-- The default value of a parameter. -/
def defaultOf? (t : Tree) (i id : Nat) : Option String := (t.decl id).defaultValues[i]?.join

lemma inheritedDefault?_eq (t : Tree) (methods : List Nat) (i : Nat) :
    t.inheritedDefault? methods i = methods.findSome? (t.defaultOf? i) := by
  unfold inheritedDefault?
  congr 1
  funext m
  rw [defaultOf?, Decl.defaultValues, Decl.defaults?]
  cases (t.decl m).signature? with
  | none => rfl
  | some s =>
    rw [Option.map_some, Option.getD_some, Option.bind_some, Signature.defaultAt?,
      Signature.defaults, List.getElem?_map]
    cases s.arguments[i]? <;> rfl

/-- No class has two virtual methods with the same name in the header and the same parameter
types. -/
def UniqueVirtuals (t : Tree) : Prop :=
  ∀ a b c ma mb, t.parent? a = some c → t.parent? b = some c → (t.decl a).method? = some ma →
    (t.decl b).method? = some mb → ma.isVirtual = true → mb.isVirtual = true →
    (t.decl a).headerName = (t.decl b).headerName →
    ma.signature.parameterTypes = mb.signature.parameterTypes → a = b

lemma uniqueVirtuals_iff : t.UniqueVirtuals ↔ ∀ a < t.size, ∀ b < t.size,
    t.parent? a = t.parent? b → (t.decl a).method?.any (·.isVirtual) = true →
      t.overrides a b = true → a = b := by
  constructor
  · intro h a _ b _ hparent hvirtual hover
    obtain ⟨ma, mb, hma, hmb, hvb, hname, htypes⟩ := overrides_iff.1 hover
    obtain ⟨c, hc, -⟩ := exists_class_of_method (Decl.signature?_of_method? hma).1
    rw [hma] at hvirtual
    exact h a b c ma mb hc (hparent ▸ hc) hma hmb hvirtual hvb hname.symm htypes.symm
  · intro h a b c ma mb ha hb hma hmb hva hvb hname htypes
    refine h a (lt_size_of_parent? ha) b (lt_size_of_parent? hb) (ha.trans hb.symm) ?_
      (overrides_iff.2 ⟨ma, mb, hma, hmb, hvb, hname.symm, htypes.symm⟩)
    rw [hma]
    exact hva

instance (t : Tree) : Decidable t.UniqueVirtuals := decidable_of_iff _ uniqueVirtuals_iff.symm

/-- The methods of a class that a method overrides. -/
def overriddenIn (t : Tree) (id c : Nat) : List Nat :=
  (t.childrenOfKind c .method).filter (t.overrides id)

lemma mem_overriddenIn_iff : b ∈ t.overriddenIn id c ↔
    t.parent? b = some c ∧ (t.decl b).kind = .method ∧ t.overrides id b = true := by
  rw [overriddenIn, List.mem_filter, mem_childrenOfKind_iff, and_assoc]

lemma nodup_overriddenIn (t : Tree) (id c : Nat) : (t.overriddenIn id c).Nodup :=
  ((t.nodup_children c).filter _).filter _

/-- A class has no more than one virtual method that another one overrides. -/
lemma UniqueVirtuals.overriddenIn_eq (h : t.UniqueVirtuals) (hb : b ∈ t.overriddenIn id c) :
    t.overriddenIn id c = [b] := by
  obtain ⟨hparent, -, hover⟩ := mem_overriddenIn_iff.1 hb
  obtain ⟨own, other, hown, hother, hvirtual, hname, htypes⟩ := overrides_iff.1 hover
  refine List.perm_singleton.1 ((List.perm_ext_iff_of_nodup (t.nodup_overriddenIn id c)
    (List.nodup_singleton b)).2 fun b' => ?_)
  rw [List.mem_singleton]
  refine ⟨fun hb' => ?_, fun heq => heq ▸ hb⟩
  obtain ⟨hparent', -, hover'⟩ := mem_overriddenIn_iff.1 hb'
  obtain ⟨own', other', hown', hother', hvirtual', hname', htypes'⟩ := overrides_iff.1 hover'
  obtain rfl : own = own' := Option.some.inj (hown.symm.trans hown')
  exact h b' b c other' other hparent' hparent hother' hother hvirtual' hvirtual
    (hname'.trans hname.symm) (htypes'.trans htypes.symm)

/-- What a method overrides in a class is what any method that it overrides does. -/
lemma overriddenIn_of_overrides (h : t.overrides id b = true) (c : Nat) :
    t.overriddenIn b c = t.overriddenIn id c := by
  obtain ⟨own, other, hown, hother, -, hname, htypes⟩ := overrides_iff.1 h
  refine List.filter_congr fun x _ => ?_
  rw [Bool.eq_iff_iff, overrides_iff, overrides_iff]
  simp only [hown, hother, hname, htypes, Option.some.injEq, exists_and_left, exists_eq_left']

/-- A method that is not static. -/
def isInstanceMethod (t : Tree) (id : Nat) : Bool := (t.decl id).method?.any (!·.isStatic)

lemma overridden_eq_nil (h : t.isInstanceMethod id = false) : t.overridden id = [] := by
  unfold isInstanceMethod at h
  unfold overridden
  cases hmethod : (t.decl id).method? with
  | none => rfl
  | some own =>
    rw [hmethod, Option.any_some, Bool.not_eq_false'] at h
    cases t.parent? id with
    | none => rfl
    | some owner => exact if_pos h

/-- What a method overrides is found class by class. -/
lemma overridden_eq_flatMap (h : t.isInstanceMethod id = true) (howner : t.parent? id = some c) :
    t.overridden id = (t.ancestry t.ids (t.decl c).bases).flatMap (t.overriddenIn id) := by
  obtain ⟨own, hown, hstatic⟩ := (Option.any_eq_true _ _).1 h
  rw [Bool.not_eq_true'] at hstatic
  rw [overridden, hown, howner]
  exact if_neg (by simp [hstatic])

lemma exists_owner (h : t.isInstanceMethod id = true) : ∃ c, t.parent? id = some c := by
  obtain ⟨own, hown, -⟩ := (Option.any_eq_true _ _).1 h
  obtain ⟨c, hc, -⟩ := exists_class_of_method (Decl.signature?_of_method? hown).1
  exact ⟨c, hc⟩

/-- The first value that is found is that of the first class that has one. -/
lemma findSome?_overridden {α : Type} (h : t.isInstanceMethod id = true)
    (howner : t.parent? id = some c) (f : Nat → Option α) : (t.overridden id).findSome? f =
      (t.ancestry t.ids (t.decl c).bases).findSome? fun x => (t.overriddenIn id x).findSome? f := by
  rw [overridden_eq_flatMap h howner, ← List.head?_filterMap, List.filterMap_flatMap,
    List.head?_flatMap]
  simp only [List.head?_filterMap]

/-! ## While the pass is running -/

/-- The declaration with the default values that it inherits by the tree as it is. -/
def completed (t : Tree) (id : Nat) : Decl :=
  (Edit.setDefaults (completedDefaults (t.decl id).defaultValues
    (t.inheritedDefault? (t.overridden id)))).apply (t.decl id)

lemma completed_of_signature?_none (h : (t.decl id).signature? = none) :
    t.completed id = t.decl id := apply_setDefaults_of_none h _

lemma decl_inheritDefaultsOf (t : Tree) (id : Nat) :
    (t.inheritDefaultsOf id).tree.decl id = t.completed id := by
  rcases inheritDefaultsOf_cases t id with ⟨hnone, hsame⟩ | ⟨s, hs, htree, -⟩
  · rw [hsame, completed_of_signature?_none hnone]
    rfl
  · rw [htree, decl_edit, if_pos ⟨rfl, lt_size_of_signature? hs⟩, completed,
      Decl.defaultValues_of_signature? hs, defaultsWithInherited_eq]

lemma defaultValues_completed (t : Tree) (id : Nat) : (t.completed id).defaultValues =
    completedDefaults (t.decl id).defaultValues (t.inheritedDefault? (t.overridden id)) := by
  rcases inheritDefaultsOf_cases t id with ⟨hnone, -⟩ | ⟨s, hs, htree, -⟩
  · have hnil : (t.decl id).defaultValues = [] := by
      rw [Decl.defaultValues, Decl.defaults?, hnone]
      rfl
    rw [completed_of_signature?_none hnone, hnil]
    rfl
  · rw [← decl_inheritDefaultsOf, htree,
      defaultValues_setDefaults hs (length_defaultsWithInherited t id s),
      Decl.defaultValues_of_signature? hs, defaultsWithInherited_eq]

/-- `u` has come of `t` by completing some of the declarations. -/
structure Between (t u : Tree) : Prop where
  develops : t.Develops [.defaults] u
  size_eq : u.size = t.size
  decl_cases : ∀ id, u.decl id = t.decl id ∨ u.decl id = t.completed id

namespace Between

lemma refl (t : Tree) : t.Between t := ⟨.refl _ t, rfl, fun _ => .inl rfl⟩

lemma overridden_eq (h : t.Between u) (id : Nat) : u.overridden id = t.overridden id :=
  Tree.overridden_eq (h.develops.alike h.size_eq) id

/-- A base gives what it gave before, or what would be found behind it. -/
lemma findSome?_overriddenIn_cases (h : t.Between u) (hunique : t.UniqueVirtuals)
    (id i c : Nat) : (t.overriddenIn id c).findSome? (u.defaultOf? i) =
        (t.overriddenIn id c).findSome? (t.defaultOf? i) ∨
      (t.overriddenIn id c).findSome? (t.defaultOf? i) = none ∧
        (t.overriddenIn id c).findSome? (u.defaultOf? i) =
          (t.ancestry t.ids (t.decl c).bases).findSome? fun x =>
            (t.overriddenIn id x).findSome? (t.defaultOf? i) := by
  cases hfound : t.overriddenIn id c with
  | nil => exact .inl rfl
  | cons b rest =>
    have hb : b ∈ t.overriddenIn id c := by simp [hfound]
    obtain ⟨hparent, -, hover⟩ := mem_overriddenIn_iff.1 hb
    rw [← hfound, hunique.overriddenIn_eq hb, List.findSome?_singleton, List.findSome?_singleton]
    rcases h.decl_cases b with hsame | hcompleted
    · exact .inl (by rw [defaultOf?, hsame, defaultOf?])
    · have hvalue : u.defaultOf? i b = (completedDefaults (t.decl b).defaultValues
          (t.inheritedDefault? (t.overridden b)))[i]?.join := by
        rw [defaultOf?, hcompleted, defaultValues_completed]
      rcases getElem?_completedDefaults_cases (t.decl b).defaultValues
        (t.inheritedDefault? (t.overridden b)) i with hown | ⟨hnone, hinherited⟩
      · exact .inl (hvalue.trans hown)
      · rw [hvalue, hinherited, inheritedDefault?_eq]
        cases hinstance : t.isInstanceMethod b with
        | false => exact .inl (by rw [overridden_eq_nil hinstance, defaultOf?, hnone]; rfl)
        | true =>
          refine .inr ⟨hnone, ?_⟩
          rw [findSome?_overridden hinstance hparent]
          simp only [overriddenIn_of_overrides hover]

/-- As long as the pass is running, what a method inherits is what it inherited in the first
tree. -/
lemma inheritedDefault?_eq (h : t.Between u) (hacyclic : t.Acyclic) (hunique : t.UniqueVirtuals)
    (id i : Nat) : u.inheritedDefault? (u.overridden id) i =
      t.inheritedDefault? (t.overridden id) i := by
  rw [h.overridden_eq, Tree.inheritedDefault?_eq, Tree.inheritedDefault?_eq]
  cases hinstance : t.isInstanceMethod id with
  | false => rw [overridden_eq_nil hinstance]; rfl
  | true =>
    obtain ⟨c, howner⟩ := exists_owner hinstance
    rw [findSome?_overridden hinstance howner, findSome?_overridden hinstance howner]
    exact findSome?_ancestry_congr hacyclic (h.findSome?_overriddenIn_cases hunique id i) _

/-- Half-way through the pass a method would be completed as in the first tree: what it overrides is
the same, and a value taken over on the way came from where it would have been found anyway. -/
lemma completed_eq (h : t.Between u) (hacyclic : t.Acyclic) (hunique : t.UniqueVirtuals)
    (hsame : u.decl id = t.decl id) : u.completed id = t.completed id := by
  rw [completed, completed, hsame, funext (h.inheritedDefault?_eq hacyclic hunique id)]

lemma step (h : t.Between u) (hacyclic : t.Acyclic) (hunique : t.UniqueVirtuals)
    (hsame : u.decl id = t.decl id) : t.Between (u.inheritDefaultsOf id).tree where
  develops := h.develops.trans (develops_inheritDefaultsOf u id)
  size_eq := (size_inheritDefaultsOf u id).trans h.size_eq
  decl_cases i := by
    by_cases hi : id = i
    · subst hi
      exact .inr ((decl_inheritDefaultsOf u id).trans (h.completed_eq hacyclic hunique hsame))
    · rw [givesDefaults_inheritDefaultsOf.decl_of_ne hi]
      exact h.decl_cases i

end Between

/-- The pass completes the methods that are not kept out, each by the tree as it was before. -/
lemma decl_inheritDefaults (hacyclic : t.Acyclic) (hunique : t.UniqueVirtuals) (id : Nat) :
    t.inheritDefaults.tree.decl id =
      if (t.decl id).kind = .method ∧ (t.decl id).ignored = false then t.completed id
      else t.decl id := by
  change (Progress.sweep inheritDefaultsOf t.openMethods t).tree.decl id = _
  rw [Progress.decl_sweep (I := t.Between) t.completed
    (fun u id hu hsame =>
      (decl_inheritDefaultsOf u id).trans (hu.completed_eq hacyclic hunique hsame))
    (fun u id hu hsame => hu.step hacyclic hunique hsame)
    (fun u {_ _} => givesDefaults_inheritDefaultsOf.decl_of_ne) t.nodup_openMethods (.refl t)]
  exact if_congr mem_openMethods_iff rfl rfl

/-- A method that overrides nothing has nothing to complete. -/
lemma completed_eq_self (h : t.isInstanceMethod id = false) : t.completed id = t.decl id := by
  rcases inheritDefaultsOf_cases t id with ⟨hnone, -⟩ | ⟨s, hs, htree, -⟩
  · exact completed_of_signature?_none hnone
  · have hvalues : t.defaultsWithInherited id s = s.defaults := by
      have hinherited : t.inheritedDefault? [] = fun _ => none := rfl
      rw [defaultsWithInherited_eq, overridden_eq_nil h, hinherited,
        completedDefaults_eq_simultaneousDefaults]
      exact List.ext_getElem? fun i => by simp [simultaneousDefaults]
    rw [← decl_inheritDefaultsOf, htree, hvalues, edit_setDefaults_self hs]

/-! ## Classes in another order -/

section Rearranged

open Equiv (Perm)

variable {σ : Perm Nat}

lemma derivesFrom_of_rearranged (h : Rearranged σ t u) {x y : Nat} :
    u.DerivesFrom (σ x) (σ y) ↔ t.DerivesFrom x y := by
  rw [← mem_ancestry_iff, ← mem_ancestry_iff, h.decl_eq, ancestry_of_rearranged h h.ids_perm,
    List.mem_map_of_injective σ.injective]

lemma Acyclic.of_rearranged (hacyclic : t.Acyclic) (h : Rearranged σ t u) : u.Acyclic := by
  intro x
  obtain ⟨x, rfl⟩ := σ.surjective x
  rw [derivesFrom_of_rearranged h]
  exact hacyclic x

lemma UniqueVirtuals.of_rearranged (hunique : t.UniqueVirtuals) (h : Rearranged σ t u) :
    u.UniqueVirtuals := by
  intro a b c ma mb
  obtain ⟨a, rfl⟩ := σ.surjective a
  obtain ⟨b, rfl⟩ := σ.surjective b
  obtain ⟨c, rfl⟩ := σ.surjective c
  rw [h.parent?_eq_some_iff, h.parent?_eq_some_iff, h.decl_eq, h.decl_eq, σ.injective.eq_iff]
  exact hunique a b c ma mb

lemma overriddenIn_of_rearranged (hunique : t.UniqueVirtuals) (h : Rearranged σ t u)
    (id c : Nat) : u.overriddenIn (σ id) (σ c) = (t.overriddenIn id c).map σ := by
  have hperm : (u.overriddenIn (σ id) (σ c)).Perm ((t.overriddenIn id c).map σ) := by
    refine Rearranged.perm_map (t.nodup_overriddenIn id c) (u.nodup_overriddenIn _ _) fun b => ?_
    rw [mem_overriddenIn_iff, mem_overriddenIn_iff, h.parent?_eq_some_iff, h.decl_eq, overrides,
      overrides, h.decl_eq, h.decl_eq]
  -- there is at most one
  cases hfound : t.overriddenIn id c with
  | nil =>
    rw [hfound] at hperm
    exact hperm.eq_nil
  | cons b rest =>
    have hb : b ∈ t.overriddenIn id c := by simp [hfound]
    rw [hunique.overriddenIn_eq hb] at hperm
    rw [← hfound, hunique.overriddenIn_eq hb]
    exact List.perm_singleton.1 hperm

lemma overridden_of_rearranged (hunique : t.UniqueVirtuals) (h : Rearranged σ t u) (id : Nat) :
    u.overridden (σ id) = (t.overridden id).map σ := by
  have hsame : u.isInstanceMethod (σ id) = t.isInstanceMethod id := by
    rw [isInstanceMethod, isInstanceMethod, h.decl_eq]
  cases hinstance : t.isInstanceMethod id with
  | false => rw [overridden_eq_nil hinstance, overridden_eq_nil (hsame.trans hinstance)]; rfl
  | true =>
    obtain ⟨c, howner⟩ := exists_owner hinstance
    rw [overridden_eq_flatMap hinstance howner, overridden_eq_flatMap (hsame.trans hinstance)
      (h.parent?_eq_some_iff.2 howner), h.decl_eq, ancestry_of_rearranged h h.ids_perm,
      List.flatMap_map, List.map_flatMap]
    simp only [overriddenIn_of_rearranged hunique h]

lemma completed_of_rearranged (hunique : t.UniqueVirtuals) (h : Rearranged σ t u) (id : Nat) :
    u.completed (σ id) = t.completed id := by
  have hinherited : u.inheritedDefault? (u.overridden (σ id)) =
      t.inheritedDefault? (t.overridden id) := by
    funext i
    simp only [overridden_of_rearranged hunique h, inheritedDefault?, List.findSome?_map,
      Function.comp_def, h.decl_eq]
  rw [completed, completed, h.decl_eq, hinherited]

end Rearranged

/-! ## The pass -/

/-- Without cycles, and with at most one virtual method of a kind in each class, the pass gives
every method that is neither static nor kept out what it inherits by the tree as it was before, and
leaves all else alone.  The order of the declarations makes no difference. -/
theorem inheritDefaults_simultaneous (hacyclic : t.Acyclic) (hunique : t.UniqueVirtuals) :
    t.inheritDefaults.tree.size = t.size ∧
    (∀ id, t.inheritDefaults.tree.parent? id = t.parent? id ∧
      t.inheritDefaults.tree.decl id =
        if t.isInstanceMethod id = true ∧ (t.decl id).ignored = false then
          (Edit.setDefaults (simultaneousDefaults (t.decl id).defaultValues fun i =>
            (t.overridden id).findSome? fun b => (t.decl b).defaultValues[i]?.join)).apply
              (t.decl id)
        else t.decl id) ∧
    ∀ (σ : Equiv.Perm Nat) (u : Tree), Rearranged σ t u →
      Rearranged σ t.inheritDefaults.tree u.inheritDefaults.tree := by
  have hplaces := (develops_inheritDefaults t).alike (size_inheritDefaults t)
  refine ⟨size_inheritDefaults t, fun id => ⟨hplaces.parent?_eq id, ?_⟩, fun σ u h => ?_⟩
  · rw [decl_inheritDefaults hacyclic hunique]
    cases hinstance : t.isInstanceMethod id with
    | false => rw [completed_eq_self hinstance, ite_self, if_neg (by simp)]
    | true =>
      obtain ⟨own, hown, -⟩ := (Option.any_eq_true _ _).1 hinstance
      rw [completed, completedDefaults_eq_simultaneousDefaults,
        funext (t.inheritedDefault?_eq (t.overridden id))]
      refine if_congr ?_ rfl rfl
      rw [(Decl.signature?_of_method? hown).1]
      simp only [true_and]
  · have hplaces' := (develops_inheritDefaults u).alike (size_inheritDefaults u)
    refine ⟨?_, fun id hid => ?_, fun id => ?_, fun id => ?_⟩
    · rw [size_inheritDefaults, size_inheritDefaults, h.size_eq]
    · exact h.fixed id (size_inheritDefaults t ▸ hid)
    · rw [decl_inheritDefaults hacyclic hunique,
        decl_inheritDefaults (hacyclic.of_rearranged h) (hunique.of_rearranged h), h.decl_eq,
        completed_of_rearranged hunique h]
    · rw [hplaces.parent?_eq, hplaces'.parent?_eq, h.parent?_eq]

/-- A method with two parameters, which may have default values. -/
def fooMethod (usr : String) (x y : Option String) : Decl :=
  .new ⟨usr⟩ "foo" (.method ⟨⟨.void, [⟨"x", .builtin "int", x⟩, ⟨"y", .builtin "int", y⟩], false⟩,
    true, false, none, none⟩)

/-- A class `D` derived from `B` and `C`, which are both derived from `A`.  The derived classes come
first. -/
def diamondTree : Tree :=
  empty.changed [
    .insert none (.new ⟨"tu:a.h"⟩ "a.h" .translationUnit),
    .insert (some 0) (.new ⟨"D"⟩ "D" (.classType true [⟨"B"⟩, ⟨"C"⟩])),
    .insert (some 1) (fooMethod "d" none none),
    .insert (some 0) (.new ⟨"B"⟩ "B" (.classType true [⟨"A"⟩])),
    .insert (some 3) (fooMethod "b" none none),
    .insert (some 0) (.new ⟨"C"⟩ "C" (.classType true [⟨"A"⟩])),
    .insert (some 5) (fooMethod "c" (some "3") none),
    .insert (some 0) (.new ⟨"A"⟩ "A" (.classType true [])),
    .insert (some 7) (fooMethod "a" (some "1") (some "2"))]

lemma acyclic_diamondTree : diamondTree.Acyclic := acyclic_of_lt (by decide +kernel)

lemma overridden_diamondTree : diamondTree.overridden 2 = [4, 8, 6] := by cbv

/-- The method of `B` has nothing to give when `D` is looked at, and gets the same as `D` later. -/
theorem inheritDefaults_simultaneous_diamondTree :
    diamondTree.Acyclic ∧ diamondTree.UniqueVirtuals ∧
      (diamondTree.inheritDefaults.tree.decl 2).defaultValues = [some "1", some "2"] ∧
      (diamondTree.inheritDefaults.tree.decl 4).defaultValues = [some "1", some "2"] ∧
      (diamondTree.inheritDefaults.tree.decl 6).defaultValues = [some "3", some "2"] := by
  have hunique : diamondTree.UniqueVirtuals := by decide +kernel
  have hbase : diamondTree.overridden 4 = [8] := by cbv
  have hbase' : diamondTree.overridden 6 = [8] := by cbv
  obtain ⟨-, hdecl, -⟩ := inheritDefaults_simultaneous acyclic_diamondTree hunique
  refine ⟨acyclic_diamondTree, hunique, ?_, ?_, ?_⟩
  · rw [(hdecl 2).2, overridden_diamondTree]
    decide +kernel
  · rw [(hdecl 4).2, hbase]
    decide +kernel
  · rw [(hdecl 6).2, hbase']
    decide +kernel

end Tree

end Bindery
