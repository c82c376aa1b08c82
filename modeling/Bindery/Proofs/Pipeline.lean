import Bindery.Pipeline
import Bindery.Proofs.Naming.Normalize
import Bindery.Proofs.Pass.Run

/-!
# Processing twice

With the passes in their usual order nothing is left to do for any stage of `Config.process` when
all of them have run, so processing the result again changes nothing (`process_process`).

Each stage is idle for a reason of its own.  Selectors pick what they picked before.  A prefix comes
off only where a declaration has the name of its header, and no declaration that lost its prefix has
got that name back.  Capitals are there to stay, whatever has been put behind a name.  And the
passes do not disturb each other.
-/

namespace Bindery.Config

variable {config : Config} {t : Tree}

/-! ## The stages -/

/-- The tree in front of the passes. -/
def named (config : Config) (t : Tree) : Tree :=
  ((t.suppress config.suppressed).tree.normaliseNames config.namePrefix config.renames
    config.capitalised).tree

/-- What a successful run has done. -/
lemma of_process {n : Nat} (h : (config.process t).result = .ok n) :
    config.validate = .ok () ∧ (∃ m, (t.suppress config.suppressed).result = .ok m) ∧
      (config.process t).tree = (config.applyPasses (config.named t)).tree := by
  have hprepare : ∃ m, (config.prepare t).result = .ok m := by
    cases hresult : (config.prepare t).result with
    | ok m => exact ⟨m, rfl⟩
    | error e =>
      rw [process, Outcome.andThen_of_error hresult, hresult] at h
      exact absurd h (by simp)
  obtain ⟨m, hm⟩ := hprepare
  have htree : (config.process t).tree = (config.applyPasses (config.prepare t).tree).tree := by
    rw [process, Outcome.andThen_of_ok hm]
  rw [htree]
  unfold prepare at hm ⊢
  cases hvalid : config.validate with
  | error e => simp [hvalid, Outcome.fail] at hm
  | ok valid =>
    simp only [hvalid, Outcome.mapError] at hm ⊢
    cases hsuppress : (t.suppress config.suppressed).result with
    | error e => simp [Outcome.andThen_of_error hsuppress, hsuppress, Except.mapError] at hm
    | ok k =>
      refine ⟨trivial, ⟨k, rfl⟩, ?_⟩
      rw [Outcome.andThen_of_ok hsuppress]
      rfl

lemma checkOrder_of_validate (h : config.validate = .ok ()) :
    Pass.checkOrder config.passes = .ok () := by
  rw [validate] at h
  cases horder : Pass.checkOrder config.passes with
  | ok valid => rfl
  | error e =>
    rw [horder] at h
    exact absurd h (by simp [Except.mapError, bind, Except.bind])

/-- Passes that are in a valid order run to their end. -/
lemma exists_result_applyPasses (hvalid : config.validate = .ok ()) (u : Tree) :
    ∃ n, (config.applyPasses u).result = .ok n := by
  obtain ⟨n, hn⟩ := Pass.exists_result_runInOrder config.passes u
  refine ⟨n, ?_⟩
  rw [applyPasses, Tree.applyPasses_of_checkOrder (checkOrder_of_validate hvalid),
    Outcome.mapError, hn]
  rfl

/-- A valid configuration without renamings can fail on its selectors only. -/
lemma exists_result_process {m : Nat} (hvalid : config.validate = .ok ())
    (hrenames : config.renames = []) (hsuppress : (t.suppress config.suppressed).result = .ok m) :
    ∃ n, (config.process t).result = .ok n := by
  have hprepare : ∃ n, (config.prepare t).result = .ok n := by
    rw [prepare, hvalid, hrenames]
    dsimp only
    rw [Outcome.andThen_of_ok hsuppress]
    exact ⟨_, rfl⟩
  obtain ⟨n, hn⟩ := hprepare
  obtain ⟨k, hk⟩ := exists_result_applyPasses hvalid (config.prepare t).tree
  refine ⟨n + k, ?_⟩
  rw [process, Outcome.andThen_of_ok hn, hk]
  rfl

/-- A run of stages that are all idle is idle. -/
lemma process_idle (hvalid : config.validate = .ok ())
    (hsuppress : (t.suppress config.suppressed).Idle t)
    (hnames : (t.normaliseNames config.namePrefix config.renames config.capitalised).Idle t)
    (hpasses : (t.applyPasses config.passes).Idle t) : (config.process t).Idle t := by
  have hprepare : (config.prepare t).Idle t := by
    unfold prepare
    rw [hvalid]
    exact (hsuppress.andThen hnames).mapError _
  exact hprepare.andThen (hpasses.mapError _)

/-! ## Names at the end of a run -/

/-- The passes in their usual order. -/
def usualPasses (strip : Bool) : List Pass := .promoteFunctions strip :: Pass.standard.tail

lemma checkOrder_usualPasses (strip : Bool) : Pass.checkOrder (usualPasses strip) = .ok () := by
  cases strip <;> rfl

lemma settled_usualPasses (strip : Bool) (t : Tree) :
    ∀ pass ∈ usualPasses strip,
      Pass.Settled pass.kind (Pass.runInOrder (usualPasses strip) t).tree := by
  refine Pass.settled_runInOrder ?_ t
  cases strip <;> decide

section Names

variable (rule : NamePrefix) (targets : List CapitalTarget) (passes : List Pass)

/-- The tree after the prefix has been taken off, names been capitalised, and passes been run. -/
def treated (t : Tree) : Tree :=
  (Pass.runInOrder passes ((t.takeOffPrefix rule).tree.capitalise targets).tree).tree

lemma develops_treated (t : Tree) :
    t.Develops (.name :: passes.flatMap Pass.touches) (treated rule targets passes t) := by
  have hnamed := (Tree.develops_takeOffPrefix t rule).trans
    (Tree.develops_capitalise (t.takeOffPrefix rule).tree targets)
  exact (hnamed.mono (by simp)).trans ((Pass.develops_runInOrder passes _).mono (by simp))

lemma size_named (t : Tree) :
    ((t.takeOffPrefix rule).tree.capitalise targets).tree.size = t.size := by
  rw [Tree.size_capitalise, Tree.size_takeOffPrefix]

/-- No prefix comes off a second time. -/
lemma unprefixed_treated (hrule : rule = .nothing ∨ (rule.Avoids '_' ∧
    ∀ id < t.size, (t.decl id).name = (t.decl id).headerName)) :
    ∀ id ∈ (treated rule targets passes t).prefixTargets,
      Tree.Unprefixed rule ((treated rule targets passes t).decl id) := by
  intro id hid
  rcases hrule with rfl | ⟨havoids, hnames⟩
  · exact .inr (.inl rfl)
  have hdev := develops_treated rule targets passes t
  rw [Tree.prefixTargets_of_develops hdev] at hid
  have hlt := Tree.lt_size_of_mem_prefixTargets hid
  have hheader := hdev.reads Decl.headerName Decl.headerName_shape hlt
  have hcapital := Tree.name_capitalise (t.takeOffPrefix rule).tree targets id
  have hnumbered : Numbered _ ((treated rule targets passes t).decl id).name :=
    Pass.numbered_runInOrder passes (by rwa [size_named])
  by_cases hname : ((treated rule targets passes t).decl id).name = (t.decl id).name
  · rcases Tree.name_takeOffPrefix t rule id with hkept | ⟨hnot, htaken⟩
    · -- The name is the old one, from which nothing came off.
      have hdone := Tree.unprefixed_takeOffPrefix t rule id hid
      have hheader' := (Tree.develops_takeOffPrefix t rule).reads Decl.headerName
        Decl.headerName_shape hlt
      unfold Tree.Unprefixed at hdone ⊢
      rwa [hname, hheader, ← hkept, ← hheader']
    · -- The prefix came off, and there is no way back.
      simp only [Tree.Unprefixed, not_or] at hnot
      rw [htaken] at hcapital
      exact absurd hname (NamePrefix.ne_of_takeOff havoids hnot.2.1 hnot.2.2 hcapital hnumbered)
  · refine .inl fun hsame => hname ?_
    rw [hsame, hheader, hnames id hlt]

/-- No capital is missing. -/
lemma capital_treated (hmethod : CapitalTarget.method ∉ targets) :
    ∀ id < (treated rule targets passes t).size,
      Tree.Capital targets ((treated rule targets passes t).decl id) := by
  intro id hid htargeted
  have hdev := develops_treated rule targets passes t
  have hlt : id < t.size := by
    refine hdev.lt_size_of_kind_ne hid fun hkind => hmethod ?_
    obtain ⟨target, hmem, htarget⟩ := List.any_eq_true.1 htargeted
    rw [decide_eq_true_eq, hkind] at htarget
    cases target <;> simp_all [CapitalTarget.kind]
  have hlt' : id < (t.takeOffPrefix rule).tree.size := by
    rw [Tree.size_takeOffPrefix]
    exact hlt
  have hrun := Pass.develops_runInOrder passes ((t.takeOffPrefix rule).tree.capitalise targets).tree
  have hcapital := Tree.capital_capitalise (t.takeOffPrefix rule).tree targets hlt'
  have hbefore : Text.upperFirst _ = _ := hcapital (by
    unfold Tree.Targeted at htargeted ⊢
    rwa [← hrun.kind_eq (by rwa [size_named])])
  have hnumbered : Numbered _ ((treated rule targets passes t).decl id).name :=
    Pass.numbered_runInOrder passes (by rwa [size_named])
  rcases hnumbered with hsame | ⟨rest, hrest⟩
  · rw [hsame, hbefore]
  · rw [hrest, Text.upperFirst_append hbefore]

end Names

/-! ## The whole way twice -/

/-- Processing the result of a run once more changes nothing. -/
theorem process_process {strip : Bool} {n : Nat} (hpasses : config.passes = usualPasses strip)
    (hrenames : config.renames = []) (hmethod : CapitalTarget.method ∉ config.capitalised)
    (hrule : config.namePrefix = .nothing ∨ (config.namePrefix.Avoids '_' ∧
      ∀ id < t.size, (t.decl id).name = (t.decl id).headerName))
    (hok : (config.process t).result = .ok n) :
    (config.process (config.process t).tree).result = .ok 0 ∧
      (config.process (config.process t).tree).tree = (config.process t).tree := by
  obtain ⟨hvalid, ⟨m, hm⟩, htree⟩ := of_process hok
  have horder := checkOrder_usualPasses strip
  set start := (t.suppress config.suppressed).tree with hstart
  set final := treated config.namePrefix config.capitalised (usualPasses strip) start with hfinal
  have htreated : (config.process t).tree = final := by
    rw [htree, applyPasses, Outcome.tree_mapError, hpasses, Tree.applyPasses_of_checkOrder horder,
      named, hrenames, Tree.normaliseNames_nil, hfinal, treated]
  rw [htreated]
  have hdev := develops_treated config.namePrefix config.capitalised (usualPasses strip) start
  have hrule' : config.namePrefix = .nothing ∨ (config.namePrefix.Avoids '_' ∧
      ∀ id < start.size, (start.decl id).name = (start.decl id).headerName) := by
    refine hrule.imp_right fun ⟨havoids, hnames⟩ => ⟨havoids, fun id hid => ?_⟩
    have hsuppress := Tree.develops_suppress t config.suppressed
    have hlt : id < t.size := by rwa [hstart, Tree.size_suppress] at hid
    rw [hstart, hsuppress.reads Decl.headerName Decl.headerName_shape hlt, ← hnames id hlt]
    exact (hsuppress.same .name (by simp) id hlt).symm
  have hnames : (final.normaliseNames config.namePrefix config.renames config.capitalised).Idle
      final := by
    have htakeOff : (Outcome.ofProgress (final.takeOffPrefix config.namePrefix) :
        Outcome PassError).Idle final :=
      Outcome.idle_ofProgress (Tree.takeOffPrefix_idle (unprefixed_treated _ _ _ hrule'))
    have hcapital : (Outcome.ofProgress (final.capitalise config.capitalised) :
        Outcome PassError).Idle final :=
      Outcome.idle_ofProgress (Tree.capitalise_idle (capital_treated _ _ _ hmethod))
    rw [hrenames]
    exact (htakeOff.andThen (Outcome.idle_unchanged final)).andThen hcapital
  have hagain : (final.applyPasses config.passes).Idle final := by
    rw [hpasses, Tree.applyPasses_of_checkOrder horder]
    exact Pass.runInOrder_idle fun pass hpass => (settled_usualPasses strip _ pass hpass).idle
  have hidle := process_idle hvalid (Tree.suppress_idle_of_develops hm hdev) hnames hagain
  exact ⟨hidle.2, hidle.1⟩

/-- A header with a class, a function that becomes a method of it under the name of another, and a
global that is kept out. -/
def sampleTree : Tree :=
  Tree.empty.changed [
    .insert none (.new ⟨"tu:a.h"⟩ "a.h" .translationUnit),
    .insert (some 0) (.new ⟨"C"⟩ "igC" (.classType true [])),
    .insert (some 1) (.new ⟨"C.m"⟩ "draw" (.method ⟨⟨.void, [], false⟩, false, false, none, none⟩)),
    .insert (some 0) (.new ⟨"f"⟩ "igdraw" (.function
      ⟨.void, [⟨"self", .pointerTo (.named "igC" false (.declared ⟨"C"⟩)), none⟩], false⟩)),
    .insert (some 0) (.new ⟨"g"⟩ "igGlobal" (.function ⟨.void, [], false⟩))]

/-- A configuration that takes off a prefix and keeps the global out. -/
def sampleConfig : Config :=
  { standard with
    namePrefix := .literal "ig", capitalised := [.function, .classType],
    suppressed := [.global "igGlobal"], passes := usualPasses true }

theorem process_process_sampleTree : ∃ n, (sampleConfig.process sampleTree).result = .ok n ∧
    (sampleConfig.process (sampleConfig.process sampleTree).tree).result = .ok 0 ∧
    (sampleConfig.process (sampleConfig.process sampleTree).tree).tree =
      (sampleConfig.process sampleTree).tree := by
  have hsuppress : (sampleTree.suppress sampleConfig.suppressed).result = .ok 1 := by
    decide +kernel
  obtain ⟨n, hn⟩ := @exists_result_process sampleConfig sampleTree 1 rfl rfl hsuppress
  refine ⟨n, hn, @process_process _ _ true n rfl rfl (by decide) (.inr ⟨?_, ?_⟩) hn⟩
  · simp [sampleConfig, NamePrefix.Avoids]
  · decide +kernel

end Bindery.Config
