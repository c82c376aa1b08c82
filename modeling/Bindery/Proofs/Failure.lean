import Bindery.Proofs.Output.Rewriting
import Bindery.Proofs.Pipeline

/-!
# How processing fails

A configuration can fail on its passes, its substitutions, its selectors or its renamings, and what
is looked at first goes first.  `Config.Fails` lists these four ways, each with the error and with
the tree that is left behind.  There is no other way (`process_fails_iff`): once the names are
normalised all passes run to their end.

The first three leave the tree as it is.  Renamings are done one after another, so the fourth leaves
the tree with the declarations kept out, the prefix taken off, and the renamings done that stand
before the one that means no declaration.
-/

namespace Bindery

namespace Tree

variable {t : Tree}

/-! ## Selectors -/

/-- A selector picks something: a declaration outside of classes, or a property of the one class
of that name that has a definition. -/
def Resolves (t : Tree) : Selector → Prop
  | .global name =>
    ∃ id < t.size, (t.decl id).headerName = name ∧ t.inNamespaceScope id = true
  | .property className propertyName =>
    ∃ id, ((t.declaredAs className).filter fun id => (t.decl id).isCompleteClass) = [id] ∧
      ∃ c, t.parent? c = some id ∧ (t.decl c).kind = .property ∧
        (t.decl c).headerName = propertyName

/-- A class is found if exactly one declaration of the name has a definition. -/
lemma classNamed_eq_ok_iff {name : String} {id : Nat} :
    (t.classNamed name).value = .ok id ↔
      ((t.declaredAs name).filter fun id => (t.decl id).isCompleteClass) = [id] := by
  unfold classNamed
  split
  · next id' hfound => simp [hfound]
  · next hfound =>
    cases t.similarClasses name <;> simp [hfound]
  · next ids hone hnil =>
    simp only [Logged.value_bind, Logged.value_pure, reduceCtorEq, false_iff]
    exact hone id

lemma select_eq_ok_iff {selector : Selector} :
    (∃ ids, (t.select selector).value = .ok ids) ↔ t.Resolves selector := by
  cases selector with
  | global name =>
    have hmem : t.Resolves (.global name) ↔
        ∃ id, id ∈ (t.declaredAs name).filter t.inNamespaceScope := by
      simp only [List.mem_filter, mem_declaredAs_iff, and_assoc]
      rfl
    rw [hmem]
    cases hfound : (t.declaredAs name).filter t.inNamespaceScope with
    | nil => simp [select, hfound]
    | cons id ids =>
      simp only [select, hfound, Logged.value_pure]
      exact ⟨fun _ => ⟨id, List.mem_cons_self⟩, fun _ => ⟨_, rfl⟩⟩
  | property className propertyName =>
    rw [select, Logged.value_bind]
    unfold Resolves
    simp only [← classNamed_eq_ok_iff]
    cases hclass : (t.classNamed className).value with
    | error cause => simp
    | ok id =>
      simp only [Except.ok.injEq, exists_eq_left']
      cases hfound : (t.childrenOfKind id .property).find? fun c =>
          (t.decl c).headerName = propertyName with
      | none =>
        simp only [List.find?_eq_none, mem_childrenOfKind_iff, decide_eq_true_eq] at hfound
        simpa using hfound
      | some c =>
        have hc := mem_childrenOfKind_iff.1 (List.mem_of_find?_eq_some hfound)
        have hname := List.find?_some hfound
        rw [decide_eq_true_eq] at hname
        exact ⟨fun _ => ⟨c, hc.1, hc.2, hname⟩, fun _ => ⟨[c], rfl⟩⟩

/-- The error of a list is that of its first selector that picks nothing. -/
lemma selectAll_eq_error_iff {selectors : List Selector} {e : PassError} :
    (t.selectAll selectors).value = .error e ↔ ∃ front selector,
      FirstFailing t.Resolves selectors front selector ∧
        (t.select selector).value = .error e := by
  induction selectors with
  | nil => simp [selectAll, not_firstFailing_nil]
  | cons selector selectors ih =>
    rw [exists_firstFailing_cons_iff]
    cases hselect : (t.select selector).value with
    | error e' =>
      have hnot : ¬ t.Resolves selector := by
        rw [← select_eq_ok_iff, hselect]
        simp
      simp [selectAll, hselect, hnot]
    | ok ids =>
      have hresolves : t.Resolves selector := select_eq_ok_iff.1 ⟨ids, hselect⟩
      have htail : (t.selectAll (selector :: selectors)).value = .error e ↔
          (t.selectAll selectors).value = .error e := by
        simp only [selectAll, Logged.value_bind, hselect]
        cases (t.selectAll selectors).value <;> simp
      simp [htail, ih, hresolves]

/-- Keeping declarations out is all or nothing, and fails on its selectors only. -/
lemma suppress_eq_error_iff {selectors : List Selector} {e : PassError} :
    (t.suppress selectors).result = .error e ↔ ∃ front selector,
      FirstFailing t.Resolves selectors front selector ∧
        (t.select selector).value = .error e := by
  rw [← selectAll_eq_error_iff, suppress, ignoreSelected]
  cases (t.selectAll selectors).value <;> simp

/-- Suppressing is all or nothing. -/
lemma tree_suppress_of_error {selectors : List Selector} {e : PassError}
    (h : (t.suppress selectors).result = .error e) : (t.suppress selectors).tree = t := by
  unfold suppress ignoreSelected at h ⊢
  cases hselected : (t.selectAll selectors).value with
  | error e => rfl
  | ok ids => simp [hselected] at h

/-! ## Renamings -/

/-- Some declaration has the name in its header. -/
def Declares (t : Tree) (name : String) : Prop := ∃ id < t.size, (t.decl id).headerName = name

lemma declaredAs_eq_nil_iff {name : String} : t.declaredAs name = [] ↔ ¬ t.Declares name := by
  rw [List.eq_nil_iff_forall_not_mem]
  simp [Declares, mem_declaredAs_iff]

/-- Names in the header stay, so a renaming means something after a development if it did before. -/
lemma Develops.declares_iff {free : List Field} {u : Tree} (h : t.Develops free u)
    (hsize : u.size = t.size) {name : String} : u.Declares name ↔ t.Declares name := by
  unfold Declares
  rw [hsize]
  refine exists_congr fun id => and_congr_right fun hid => ?_
  rw [h.reads Decl.headerName Decl.headerName_shape hid]

lemma declares_takeOffPrefix_iff {rule : NamePrefix} {name : String} :
    (t.takeOffPrefix rule).tree.Declares name ↔ t.Declares name :=
  (develops_takeOffPrefix t rule).declares_iff (size_takeOffPrefix t rule)

/-- A renaming that means something takes place, and the others follow. -/
lemma giveNames_cons {rename : Renaming} (h : t.Declares rename.headerName)
    (renames : List Renaming) :
    t.giveNames (rename :: renames) =
      (Outcome.ofProgress (Progress.sweep (giveName rename.name)
        (t.declaredAs rename.headerName) t)).andThen (·.giveNames renames) := by
  rw [giveNames]
  split
  · next hnil => exact absurd h (declaredAs_eq_nil_iff.1 hnil)
  · rfl

/-- The tree left behind is the one that the renamings in front of the failing one lead to. -/
lemma giveNames_eq_error_iff {renames : List Renaming} {e : PassError} {u : Tree} :
    (t.giveNames renames).result = .error e ∧ (t.giveNames renames).tree = u ↔
      ∃ front rename, FirstFailing (fun r : Renaming => t.Declares r.headerName) renames front rename ∧
        e = .declarationNotFound rename.headerName ∧ u = (t.giveNames front).tree := by
  induction renames generalizing t with
  | nil => simp [giveNames, Outcome.unchanged, not_firstFailing_nil]
  | cons rename renames ih =>
    rw [exists_firstFailing_cons_iff]
    by_cases hrename : t.Declares rename.headerName
    · set p := Progress.sweep (giveName rename.name) (t.declaredAs rename.headerName) t
      have hsize : p.tree.size = t.size := Progress.size_sweep (size_giveName rename.name) _ t
      have hdev : t.Develops [.name] p.tree :=
        Progress.sweep_develops (develops_giveName rename.name) _ t
      have hsame : (fun r : Renaming => p.tree.Declares r.headerName) =
          fun r => t.Declares r.headerName :=
        funext fun r => propext (hdev.declares_iff hsize)
      have htree (renames : List Renaming) :
          (t.giveNames (rename :: renames)).tree = (p.tree.giveNames renames).tree := by
        rw [giveNames_cons hrename, Outcome.tree_andThen_ofProgress]
      have herror : (t.giveNames (rename :: renames)).result = .error e ↔
          (p.tree.giveNames renames).result = .error e := by
        rw [giveNames_cons hrename, Outcome.andThen_of_ok rfl, Outcome.tree_ofProgress]
        cases (p.tree.giveNames renames).result <;> simp [Except.map]
      simp [herror, htree, ih, hsame, hrename]
    · have hresult : (t.giveNames (rename :: renames)).result =
          .error (.declarationNotFound rename.headerName) := by
        rw [giveNames, declaredAs_eq_nil_iff.2 hrename]
      have htree : (t.giveNames (rename :: renames)).tree = t := by
        rw [giveNames, declaredAs_eq_nil_iff.2 hrename]
      have hnone : (t.giveNames []).tree = t := by
        rw [giveNames]
        rfl
      simp [hresult, htree, hnone, hrename, eq_comm]

end Tree

namespace Config

variable {config : Config} {t u : Tree} {e : BindingError}

/-! ## Stages -/

/-- The tree when declarations have been kept out and the prefix been taken off. -/
def unprefixed (config : Config) (t : Tree) : Tree :=
  ((t.suppress config.suppressed).tree.takeOffPrefix config.namePrefix).tree

lemma declares_unprefixed_iff {name : String} :
    (config.unprefixed t).Declares name ↔ t.Declares name := by
  have hsuppress := t.develops_suppress config.suppressed
  rw [unprefixed, Tree.declares_takeOffPrefix_iff, hsuppress.declares_iff (Tree.size_suppress _ _)]

lemma validate_of_order {e : PassError} (h : Pass.checkOrder config.passes = .error e) :
    config.validate = .error (.passes e) := by
  rw [validate, h]
  rfl

/-- Substitutions are looked at only if the passes are in order. -/
lemma validate_of_substitutions {e : WriteError} (horder : Pass.checkOrder config.passes = .ok ())
    (h : Substitution.validate config.substitutions = .error e) :
    config.validate = .error (.write e) := by
  rw [validate, horder, h]
  rfl

lemma validate_of_ok (horder : Pass.checkOrder config.passes = .ok ())
    (h : Substitution.validate config.substitutions = .ok ()) : config.validate = .ok () := by
  rw [validate, horder, h]
  rfl

lemma prepare_of_validate_error (h : config.validate = .error e) (t : Tree) :
    config.prepare t = .fail t e := by
  rw [prepare, h]

/-- A selector that picks nothing ends the preparation before anything is changed. -/
lemma prepare_of_suppress_error {e : PassError} (hvalid : config.validate = .ok ())
    (h : (t.suppress config.suppressed).result = .error e) :
    (config.prepare t).result = .error (.passes e) ∧ (config.prepare t).tree = t := by
  rw [prepare, hvalid]
  dsimp only
  rw [Outcome.andThen_of_error h, Outcome.tree_mapError, Tree.tree_suppress_of_error h,
    Outcome.mapError, h]
  exact ⟨rfl, rfl⟩

/-- When the declarations have been kept out, only the renamings can fail, and capitals come after
them. -/
lemma prepare_of_suppress {m : Nat} (hvalid : config.validate = .ok ())
    (h : (t.suppress config.suppressed).result = .ok m) :
    (∃ n, ((config.unprefixed t).giveNames config.renames).result = .ok n ∧
      ∃ k, (config.prepare t).result = .ok k) ∨
    ∃ e, ((config.unprefixed t).giveNames config.renames).result = .error e ∧
      (config.prepare t).result = .error (.passes e) ∧
      (config.prepare t).tree = ((config.unprefixed t).giveNames config.renames).tree := by
  rw [prepare, hvalid]
  dsimp only
  rw [Outcome.andThen_of_ok h, unprefixed]
  rcases Tree.normaliseNames_cases (t.suppress config.suppressed).tree config.namePrefix
    config.renames config.capitalised with ⟨n, k, hn, hk, -⟩ | ⟨e, he, hresult, htree⟩
  · exact .inl ⟨n, hn, m + k, by rw [Outcome.mapError, hk]; rfl⟩
  · exact .inr ⟨e, he, by rw [Outcome.mapError, hresult]; rfl, htree⟩

lemma validate_of_prepare {m : Nat} (h : (config.prepare t).result = .ok m) :
    config.validate = .ok () := by
  cases hvalid : config.validate with
  | ok valid => rfl
  | error e =>
    rw [prepare_of_validate_error hvalid] at h
    exact absurd h (by simp [Outcome.fail])

/-- Processing fails where preparing fails, and not later. -/
lemma process_eq_error_iff : (config.process t).result = .error e ∧ (config.process t).tree = u ↔
    (config.prepare t).result = .error e ∧ (config.prepare t).tree = u := by
  cases hprepare : (config.prepare t).result with
  | error e' => rw [process, Outcome.andThen_of_error hprepare, hprepare]
  | ok m =>
    obtain ⟨n, hn⟩ :=
      exists_result_applyPasses (validate_of_prepare hprepare) (config.prepare t).tree
    rw [process, Outcome.andThen_of_ok hprepare, hn]
    simp [Except.map]

/-! ## The ways to fail -/

/-- Processing `t` fails with an error and leaves a tree behind: on the first stage that cannot be
done, and there on the first element that stands in the way. -/
inductive Fails (config : Config) (t : Tree) : BindingError → Tree → Prop where
  | order {e : PassError} (horder : Pass.checkOrder config.passes = .error e) :
      config.Fails t (.passes e) t
  | substitution {front : List Substitution} {s : Substitution}
      (horder : Pass.checkOrder config.passes = .ok ())
      (hempty : FirstFailing (fun s => s.search ≠ "") config.substitutions front s) :
      config.Fails t (.write (.emptySubstitution front.length)) t
  | selector {front : List Selector} {selector : Selector} {e : PassError}
      (horder : Pass.checkOrder config.passes = .ok ())
      (hsearch : ∀ s ∈ config.substitutions, s.search ≠ "")
      (hnothing : FirstFailing t.Resolves config.suppressed front selector)
      (hselect : (t.select selector).value = .error e) :
      config.Fails t (.passes e) t
  | rename {front : List Renaming} {r : Renaming}
      (horder : Pass.checkOrder config.passes = .ok ())
      (hsearch : ∀ s ∈ config.substitutions, s.search ≠ "")
      (hresolves : ∀ selector ∈ config.suppressed, t.Resolves selector)
      (hmissing : FirstFailing (fun r => t.Declares r.headerName) config.renames front r) :
      config.Fails t (.passes (.declarationNotFound r.headerName))
        ((config.unprefixed t).giveNames front).tree

lemma exists_suppress_of_forall (h : ∀ selector ∈ config.suppressed, t.Resolves selector) :
    ∃ m, (t.suppress config.suppressed).result = .ok m := by
  cases hsuppress : (t.suppress config.suppressed).result with
  | ok m => exact ⟨m, rfl⟩
  | error e =>
    obtain ⟨front, selector, hfirst, -⟩ := Tree.suppress_eq_error_iff.1 hsuppress
    exact absurd h hfirst.not_forall

lemma forall_of_suppress {m : Nat} (h : (t.suppress config.suppressed).result = .ok m) :
    ∀ selector ∈ config.suppressed, t.Resolves selector := by
  by_contra hnot
  obtain ⟨front, selector, hfirst⟩ := exists_firstFailing hnot
  cases hselect : (t.select selector).value with
  | ok ids => exact hfirst.2.2 (Tree.select_eq_ok_iff.1 ⟨ids, hselect⟩)
  | error e =>
    rw [Tree.suppress_eq_error_iff.2 ⟨front, selector, hfirst, hselect⟩] at h
    exact absurd h (by simp)

lemma giveNames_unprefixed_eq_error_iff {renames : List Renaming} {e : PassError} :
    ((config.unprefixed t).giveNames renames).result = .error e ∧
        ((config.unprefixed t).giveNames renames).tree = u ↔
      ∃ front rename, FirstFailing (fun r => t.Declares r.headerName) renames front rename ∧
        e = .declarationNotFound rename.headerName ∧
        u = ((config.unprefixed t).giveNames front).tree := by
  have hsame : (fun r : Renaming => (config.unprefixed t).Declares r.headerName) =
      fun r => t.Declares r.headerName := funext fun r => propext declares_unprefixed_iff
  rw [Tree.giveNames_eq_error_iff, hsame]

/-- A failed preparation fails in one of the ways listed. -/
lemma fails_of_prepare (h : (config.prepare t).result = .error e) :
    config.Fails t e (config.prepare t).tree := by
  cases horder : Pass.checkOrder config.passes with
  | error e' =>
    rw [prepare_of_validate_error (validate_of_order horder)] at h ⊢
    cases h
    exact .order horder
  | ok valid =>
    cases hsearch : Substitution.validate config.substitutions with
    | error e' =>
      rw [prepare_of_validate_error (validate_of_substitutions horder hsearch)] at h ⊢
      cases h
      obtain ⟨front, s, hfirst, rfl⟩ := Substitution.validate_eq_error_iff.1 hsearch
      exact .substitution horder hfirst
    | ok valid =>
      have hvalid := validate_of_ok horder hsearch
      have hfilled := Substitution.validate_eq_ok_iff.1 hsearch
      cases hsuppress : (t.suppress config.suppressed).result with
      | error e' =>
        obtain ⟨hresult, htree⟩ := prepare_of_suppress_error hvalid hsuppress
        rw [hresult] at h
        cases h
        rw [htree]
        obtain ⟨front, selector, hfirst, hselect⟩ := Tree.suppress_eq_error_iff.1 hsuppress
        exact .selector horder hfilled hfirst hselect
      | ok m =>
        rcases prepare_of_suppress hvalid hsuppress with
          ⟨-, -, k, hk⟩ | ⟨e', hnames, hresult, htree⟩
        · rw [hk] at h
          exact absurd h (by simp)
        · rw [hresult] at h
          cases h
          obtain ⟨front, rename, hfirst, rfl, hleft⟩ :=
            giveNames_unprefixed_eq_error_iff.1 ⟨hnames, rfl⟩
          rw [htree, hleft]
          exact .rename horder hfilled (forall_of_suppress hsuppress) hfirst

/-- Each of the ways listed is a failure, with its error and its tree. -/
lemma Fails.prepare (h : config.Fails t e u) :
    (config.prepare t).result = .error e ∧ (config.prepare t).tree = u := by
  cases h with
  | order horder =>
    rw [prepare_of_validate_error (validate_of_order horder)]
    exact ⟨rfl, rfl⟩
  | @substitution front s horder hempty =>
    have hsearch := Substitution.validate_eq_error_iff.2 ⟨front, s, hempty, rfl⟩
    rw [prepare_of_validate_error (validate_of_substitutions horder hsearch)]
    exact ⟨rfl, rfl⟩
  | @selector front selector e horder hsearch hnothing hselect =>
    exact prepare_of_suppress_error
      (validate_of_ok horder (Substitution.validate_eq_ok_iff.2 hsearch))
      (Tree.suppress_eq_error_iff.2 ⟨front, selector, hnothing, hselect⟩)
  | @rename front r horder hsearch hresolves hmissing =>
    obtain ⟨m, hm⟩ := exists_suppress_of_forall hresolves
    have hnames := @giveNames_unprefixed_eq_error_iff config t
    obtain ⟨hnames, hleft⟩ := hnames.2 ⟨front, r, hmissing, rfl, rfl⟩
    rcases prepare_of_suppress (validate_of_ok horder (Substitution.validate_eq_ok_iff.2 hsearch))
      hm with ⟨n, hn, -⟩ | ⟨e', he, hresult, htree⟩
    · rw [hnames] at hn
      exact absurd hn (by simp)
    · rw [hnames] at he
      cases he
      exact ⟨hresult, htree.trans hleft⟩

/-- Processing fails in the ways of `Fails` and in no other: after a successful preparation the
passes run to their end, as each of them does on any tree. -/
theorem process_fails_iff (config : Config) (t : Tree) :
    (∀ e u, (config.process t).result = .error e ∧ (config.process t).tree = u ↔
      config.Fails t e u) ∧
    (∀ m, (config.prepare t).result = .ok m →
      ∃ n, (config.applyPasses (config.prepare t).tree).result = .ok n) ∧
    ∀ (pass : Pass) (u : Tree), ∃ n, (pass.run u).result = .ok n := by
  refine ⟨fun e u => ?_, fun m hm => ?_, Pass.exists_result_run⟩
  · rw [process_eq_error_iff]
    constructor
    · rintro ⟨hresult, rfl⟩
      exact fails_of_prepare hresult
    · exact Fails.prepare
  · exact exists_result_applyPasses (validate_of_prepare hm) _

/-- A configuration whose second renaming means no declaration of `sampleTree`. -/
def misnamed : Config :=
  { sampleConfig with renames := [⟨"igdraw", "Draw"⟩, ⟨"igErase", "Erase"⟩] }

/-- The first renaming has been done when the second fails; without renamings nothing does. -/
theorem process_fails_misnamed :
    ((misnamed.process sampleTree).result = .error (.passes (.declarationNotFound "igErase")) ∧
      (misnamed.process sampleTree).tree =
        ((misnamed.unprefixed sampleTree).giveNames [⟨"igdraw", "Draw"⟩]).tree) ∧
    ∃ n, (sampleConfig.applyPasses (sampleConfig.prepare sampleTree).tree).result = .ok n := by
  have hresolves : sampleTree.Resolves (.global "igGlobal") :=
    Tree.select_eq_ok_iff.1 ⟨[4], by decide +kernel⟩
  have hdeclared : sampleTree.Declares "igdraw" := ⟨3, by decide +kernel⟩
  have hundeclared : ¬ sampleTree.Declares "igErase" :=
    Tree.declaredAs_eq_nil_iff.1 (by decide +kernel)
  have hsearch : ∀ s ∈ misnamed.substitutions, s.search ≠ "" := by decide
  have hselectors : ∀ selector ∈ misnamed.suppressed, sampleTree.Resolves selector := by
    simpa [misnamed, sampleConfig] using hresolves
  have hmissing : FirstFailing (fun r : Renaming => sampleTree.Declares r.headerName)
      misnamed.renames [⟨"igdraw", "Draw"⟩] ⟨"igErase", "Erase"⟩ :=
    ⟨⟨[], rfl⟩, by simpa using hdeclared, hundeclared⟩
  have hprepare : ∃ m, (sampleConfig.prepare sampleTree).result = .ok m := by
    have hsuppress : (sampleTree.suppress sampleConfig.suppressed).result = .ok 1 := by
      decide +kernel
    rcases @prepare_of_suppress sampleConfig sampleTree 1 rfl hsuppress with
      ⟨-, -, hprepare⟩ | ⟨e, he, -⟩
    · exact hprepare
    · exact absurd he (by simp [sampleConfig, standard, Tree.giveNames, Outcome.unchanged])
  obtain ⟨m, hm⟩ := hprepare
  constructor
  · exact ((process_fails_iff misnamed sampleTree).1 _ _).2
      (.rename rfl hsearch hselectors hmissing)
  · exact (process_fails_iff sampleConfig sampleTree).2.1 m hm

end Config

end Bindery
