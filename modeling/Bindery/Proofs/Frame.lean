import Bindery.Proofs.Checkpoint
import Bindery.Proofs.Naming.Normalize
import Bindery.Proofs.Pass.Accessibility
import Bindery.Proofs.Tree.Steps

/-!
# What a treatment may change

Whatever is done to a tree between reading and emitting it, it is done in the steps of `Tree.Step`:
this is shown for each stage, sweep by sweep, whether the stage succeeds or stops halfway.  So a tree
keeps what those steps cannot change, however many treatments it goes through (`Tree.kept_treated`).
-/

namespace Bindery

/-! ## Sweeps -/

/-- A sweep is a run of permitted steps if each of its own steps is, on every tree the sweep can
have reached by then. -/
lemma Progress.steps_sweep {free : List Field} {step : Tree → Nat → Progress} {ids : List Nat}
    {t : Tree} (hdev : ∀ (u : Tree) (id : Nat), u.Develops free (step u id).tree)
    (hstep : ∀ id ∈ ids, ∀ u : Tree, t.Develops free u → u.Steps (step u id).tree) :
    t.Steps (sweep step ids t).tree := by
  suffices h : t.Develops free (sweep step ids t).tree ∧ t.Steps (sweep step ids t).tree from h.2
  refine sweep_invariant (I := fun u => t.Develops free u ∧ t.Steps u) ?_ ⟨.refl free t, .refl⟩
  exact fun id hid u hu => ⟨hu.1.trans (hdev u id), hu.2.trans (hstep id hid u hu.1)⟩

/-- A failure ends the run early, after steps that were all permitted. -/
lemma Outcome.steps_andThen {ε : Type} {t : Tree} {o : Outcome ε} {next : Tree → Outcome ε}
    (h : t.Steps o.tree) (hnext : ∀ u : Tree, u.Steps (next u).tree) :
    t.Steps (o.andThen next).tree :=
  andThen_invariant (I := fun u => t.Steps u) h fun u hu => hu.trans (hnext u)

namespace Tree

/-! ## Suppressing and naming -/

lemma steps_ignore (t : Tree) (id : Nat) : t.Steps (t.edit id .ignore) := Permits.ignore.steps

lemma steps_rename (t : Tree) (id : Nat) (name : String) : t.Steps (t.edit id (.rename name)) :=
  (Permits.rename name).steps

/-- Selectors that fail leave the tree alone, and others hide declarations. -/
lemma steps_suppress (t : Tree) (selectors : List Selector) :
    t.Steps (t.suppress selectors).tree := by
  have hone : ∀ (u : Tree) (id : Nat), u.Steps (u.ignoreOne id).tree := by
    intro u id
    unfold ignoreOne
    split
    · exact .refl
    · exact steps_ignore u id
  unfold suppress ignoreSelected
  split
  · exact .refl
  · exact Progress.steps_sweep develops_ignoreOne fun id _ u _ => hone u id

lemma steps_takeOffPrefix (t : Tree) (rule : NamePrefix) :
    t.Steps (t.takeOffPrefix rule).tree := by
  refine Progress.steps_sweep (develops_takeOffPrefixOf rule) fun id _ u _ => ?_
  rcases takeOffPrefixOf_cases rule u id with ⟨-, hidle⟩ | ⟨-, htree⟩
  · rw [hidle.1]
  · rw [htree]
    exact steps_rename u id _

/-- The renamings before one that means nothing have taken place. -/
lemma steps_giveNames (t : Tree) (renames : List Renaming) :
    t.Steps (t.giveNames renames).tree := by
  have hone : ∀ (name : String) (u : Tree) (id : Nat), u.Steps (giveName name u id).tree := by
    intro name u id
    unfold giveName
    split
    · exact .refl
    · exact steps_rename u id name
  induction renames generalizing t with
  | nil => exact .refl
  | cons rename renames ih =>
    rw [giveNames]
    split
    · exact .refl
    · rw [Outcome.tree_andThen_ofProgress]
      refine .trans ?_ (ih _)
      exact Progress.steps_sweep (develops_giveName rename.name) fun id _ u _ => hone _ u id

lemma steps_capitalise (t : Tree) (targets : List CapitalTarget) :
    t.Steps (t.capitalise targets).tree := by
  refine Progress.steps_sweep (develops_capitaliseOne targets) fun id _ u _ => ?_
  rcases capitaliseOne_cases targets u id with ⟨-, hidle⟩ | ⟨-, htree⟩
  · rw [hidle.1]
  · rw [htree]
    exact steps_rename u id _

lemma steps_normaliseNames (t : Tree) (rule : NamePrefix) (renames : List Renaming)
    (targets : List CapitalTarget) : t.Steps (t.normaliseNames rule renames targets).tree := by
  unfold normaliseNames
  refine Outcome.steps_andThen (Outcome.steps_andThen ?_ fun u => ?_) fun u => ?_
  · exact steps_takeOffPrefix t rule
  · exact steps_giveNames u renames
  · exact steps_capitalise u targets

/-! ## Passes -/

/-- A promotion takes two steps: it adds the method, and hides the function. -/
lemma steps_promoteFunctions (t : Tree) (strip : Bool) :
    t.Steps (t.promoteFunctions strip).tree := by
  rw [promoteFunctions_eq]
  refine Progress.steps_sweep (develops_promoteOne strip) fun id hid u hdev => ?_
  change u.Steps (u.promoteOne strip id).tree
  rcases promoteOne_cases strip u id with ⟨-, hidle⟩ | ⟨p, grown, hp, hgrown, htree, -⟩
  · rw [hidle.1]
  · have hfree := (List.mem_filter.1 hid).2
    have hkind := kind_of_isFreeFunction hfree
    have hlt : id < t.size := lt_size_of_kind (by rw [hkind]; decide)
    obtain ⟨-, -, s, receiver, rest, name, hs, harguments, hmethod⟩ := method_of_promotion? hp
    rw [hmethod] at hgrown
    rw [htree]
    refine .single (.promote ?_ ?_ hs harguments hgrown)
    · rw [hdev.kind_eq hlt, hkind]
    · rw [hdev.inNamespaceScope_eq hlt]
      simp only [isFreeFunction, Bool.and_eq_true] at hfree
      exact hfree.2

/-- A scope takes as many steps as declarations clash. -/
lemma steps_separateNames (taken : List String) (uses : List NameUse) (ids : List Nat)
    (t : Tree) : t.Steps (separateNames taken uses ids t).tree := by
  induction ids generalizing taken uses t with
  | nil => exact .refl
  | cons id ids ih =>
    rcases separateNames_cons_cases taken uses id ids t with ⟨-, h⟩ | ⟨k, fresh, -, -, h⟩
    · rw [h]
      exact ih _ _ t
    · rw [h]
      exact (steps_rename t id fresh).trans (ih _ _ _)

lemma steps_separateAllNames (t : Tree) : t.Steps t.separateAllNames.tree :=
  Progress.steps_sweep develops_separateNamesIn fun _ _ u _ => steps_separateNames _ _ _ u

lemma steps_classifyEnums (t : Tree) : t.Steps t.classifyEnums.tree := by
  refine Progress.steps_sweep develops_classifyEnum fun id _ u _ => ?_
  rcases classifyEnum_cases u id with ⟨-, hidle⟩ | ⟨variants, isFlags, -, htree⟩
  · rw [hidle.1]
  · rw [htree]
    exact (Permits.setFlags _).steps

/-- What is not kept out when the sweep begins is not kept out when it comes to it. -/
lemma not_ignored_of_develops {t u : Tree} {id : Nat} (hdev : t.Develops [.defaults] u)
    (hid : id < t.size) (hopen : (t.decl id).ignored = false) : (u.decl id).ignored = false := by
  have hsame : (t.decl id).ignored = (u.decl id).ignored := hdev.same .ignored (by simp) id hid
  rw [← hsame, hopen]

/-- The values that are given fit, one for each argument. -/
lemma steps_inheritDefaults (t : Tree) : t.Steps t.inheritDefaults.tree := by
  refine Progress.steps_sweep develops_inheritDefaultsOf fun id hid u hdev => ?_
  obtain ⟨hwalk, htest⟩ := List.mem_filter.1 hid
  rw [Bool.and_eq_true, Bool.not_eq_true'] at htest
  rcases inheritDefaultsOf_cases u id with ⟨-, hsame⟩ | ⟨s, hs, htree, -⟩
  · rw [hsame]
    exact .refl
  · rw [htree]
    exact (Permits.setDefaults hs (length_defaultsWithInherited u id s)
      (not_ignored_of_develops hdev (mem_walk_iff.1 hwalk) htest.2)).steps

lemma steps_dropDefaults (t : Tree) : t.Steps t.dropDefaults.tree := by
  refine Progress.steps_sweep develops_dropDefaultsOf fun id hid u hdev => ?_
  obtain ⟨hwalk, htest⟩ := List.mem_filter.1 hid
  rw [Bool.and_eq_true, Bool.not_eq_true'] at htest
  rcases dropDefaultsOf_cases u id with ⟨-, hsame⟩ | ⟨s, hs, htree, -⟩
  · rw [hsame]
    exact .refl
  · rw [htree]
    exact (Permits.setDefaults hs (by simp)
      (not_ignored_of_develops hdev (mem_walk_iff.1 hwalk) htest.2)).steps

/-- One round: what it found protected is protected still, or public by now. -/
lemma steps_sweep_publish {t : Tree} {ids : List Nat}
    (hnested : ∀ id ∈ ids, t.isTypeInClass id = true)
    (hprotected : ∀ id ∈ ids, (t.decl id).access = .isProtected) :
    t.Steps (Progress.sweep publish ids t).tree := by
  suffices h : Opened t (Progress.sweep publish ids t).tree ∧
      t.Steps (Progress.sweep publish ids t).tree from h.2
  refine Progress.sweep_invariant (I := fun u => Opened t u ∧ t.Steps u) ?_ ⟨.refl t, .refl⟩
  intro id hid u ⟨hopened, hsteps⟩
  refine ⟨hopened.trans (opened_publish u id), hsteps.trans ?_⟩
  change u.Steps (u.edit id (.setAccess .isPublic))
  by_cases hpublic : (u.decl id).access = .isPublic
  · rw [edit_eq_self (by rw [Edit.apply, ← hpublic])]
  · refine (Permits.publish ?_ ?_).steps
    · rw [hopened.isTypeInClass_eq, hnested id hid]
    · rcases hopened.access_cases id with hsame | hpublic'
      · rw [hsame, hprotected id hid]
      · exact absurd hpublic' hpublic

/-- Every round is a run of steps that make protected types public. -/
lemma steps_publishRounds (t : Tree) (reported : List Nat) :
    t.Steps (t.publishRounds reported).tree := by
  induction t, reported using publishRounds.induct with
  | case1 t reported found hnil => rw [(publishRounds_of_nil hnil).1]
  | case2 t reported found secret id ids hcons published ih =>
    rw [(publishRounds_of_cons reported hcons).1]
    refine .trans ?_ ih
    have hfound : ∀ i ∈ id :: ids, i ∈ t.mentionedNestedTypes ∧
        (t.decl i).access = .isProtected := by
      intro i hi
      rw [← hcons, List.mem_filter, decide_eq_true_eq] at hi
      exact hi
    exact steps_sweep_publish
      (fun i hi => (mem_mentionedNestedTypes_iff.1 (hfound i hi).1).2.1) fun i hi => (hfound i hi).2

lemma steps_leaveHandlesToHand (t : Tree) : t.Steps t.leaveHandlesToHand.tree :=
  Progress.steps_sweep develops_leaveToHand fun _ _ _ _ =>
    Permits.requireManual.steps.trans (steps_ignore _ _)

end Tree

namespace Pass

/-- All passes are made of permitted steps. -/
lemma steps_run (pass : Pass) (t : Tree) : t.Steps (pass.run t).tree := by
  cases pass with
  | promoteFunctions strip => exact t.steps_promoteFunctions strip
  | separateNames => exact t.steps_separateAllNames
  | classifyEnums => exact t.steps_classifyEnums
  | inheritDefaults => exact t.steps_inheritDefaults
  | dropDefaults => exact t.steps_dropDefaults
  | publishNestedTypes => exact t.steps_publishRounds []
  | leaveHandlesToHand => exact t.steps_leaveHandlesToHand

lemma steps_runInOrder (passes : List Pass) (t : Tree) :
    t.Steps (runInOrder passes t).tree := by
  induction passes generalizing t with
  | nil => exact .refl
  | cons pass passes ih =>
    rw [(runInOrder_cons pass passes t).1]
    exact (steps_run pass t).trans (ih _)

end Pass

/-! ## Treatments -/

lemma Tree.steps_applyPasses (t : Tree) (passes : List Pass) :
    t.Steps (t.applyPasses passes).tree := by
  unfold applyPasses
  split
  · exact .refl
  · exact Pass.steps_runInOrder passes t

lemma Config.steps_process (config : Config) (t : Tree) : t.Steps (config.process t).tree := by
  refine Outcome.steps_andThen ?_ fun u => u.steps_applyPasses config.passes
  unfold prepare
  split
  · exact .refl
  · refine Outcome.steps_andThen (t.steps_suppress config.suppressed) fun u => ?_
    exact u.steps_normaliseNames _ _ _

/-- Whatever a treatment does, and however it ends, it has done it in permitted steps. -/
lemma Treatment.steps (treatment : Treatment) (t : Tree) : t.Steps (treatment.on t).tree := by
  cases treatment with
  | suppress selectors => exact t.steps_suppress selectors
  | normaliseNames rule renames targets => exact t.steps_normaliseNames rule renames targets
  | applyPasses passes => exact t.steps_applyPasses passes
  | process config => exact config.steps_process t

lemma Tree.steps_treated (t : Tree) (treatments : List Treatment) :
    t.Steps (t.treated treatments) := by
  induction treatments generalizing t with
  | nil => exact .refl
  | cons treatment treatments ih => exact (treatment.steps t).trans (ih _)

/-- Any sequence of treatments, failures included, goes in permitted steps from one tree to the
next, and so it keeps what such steps keep. -/
theorem Tree.kept_treated (t : Tree) (treatments : List Treatment) :
    t.Steps (t.treated treatments) ∧ t.Kept (t.treated treatments) :=
  ⟨t.steps_treated treatments, kept_of_steps (t.steps_treated treatments)⟩

end Bindery
