import Bindery.Proofs.Failure

/-!
# How generating files fails

The way from headers to files is gone in stages, and the first stage that cannot be done ends it.
`Config.Stops` lists the stages that can stand in the way, each with its error: the order of the
passes, the substitutions, the front end, the selectors, the renamings and the emitter.  There is no
other way to fail (`Config.run_stops_iff`).  What is checked without a tree is checked first, and
checked again by the stages that need it; but there it has been settled, so neither the passes nor
the substitutions fail once they are reached.
-/

namespace Bindery.Config

variable {config : Config} {frontEnd : FrontEnd} {emitter : Emitter} {t : Tree} {e : BindingError}

/-! ## Valid configurations -/

lemma validate_substitutions_of_validate (h : config.validate = .ok ()) :
    Substitution.validate config.substitutions = .ok () := by
  rw [validate, checkOrder_of_validate h] at h
  cases hvalid : Substitution.validate config.substitutions with
  | ok valid => rfl
  | error e =>
    rw [hvalid] at h
    cases h

/-- Emitted files with the substitutions applied to every text that has no role. -/
def substituted (config : Config) (files : List OutputFile) : List OutputFile :=
  files.map fun file =>
    { file with
      blocks := Block.mapPlainAll (Substitution.applyAll config.substitutions) file.blocks }

/-- The substitutions of a valid configuration can be applied to any files. -/
lemma substitute_of_validate (h : config.validate = .ok ()) (files : List OutputFile) :
    ∃ changes, config.substitute files = .ok (config.substituted files, changes) := by
  rw [substitute, OutputFile.substitute, validate_substitutions_of_validate h]
  exact ⟨_, rfl⟩

lemma emit_of_ok (h : config.validate = .ok ()) {files : List OutputFile}
    (hemit : emitter t = .ok files) : config.emit emitter t = .ok (config.substituted files) := by
  obtain ⟨changes, hsubstitute⟩ := substitute_of_validate h files
  rw [emit, hemit]
  simp only [Except.mapError, bind, Except.bind, hsubstitute]
  rfl

lemma emit_of_error {reason : String} (hemit : emitter t = .error reason) :
    config.emit emitter t = .error (.emit reason) := by
  rw [emit, hemit]
  rfl

/-! ## Trees that a configuration suits -/

/-- Everything that a configuration says about single declarations means something in the tree. -/
structure Suits (config : Config) (t : Tree) : Prop where
  resolves : ∀ selector ∈ config.suppressed, t.Resolves selector
  declares : ∀ rename ∈ config.renames, t.Declares rename.headerName

lemma fails_of_process (h : (config.process t).result = .error e) :
    ∃ u, config.Fails t e u :=
  ⟨_, fails_of_prepare (process_eq_error_iff.1 ⟨h, rfl⟩).1⟩

lemma Fails.process {u : Tree} (h : config.Fails t e u) : (config.process t).result = .error e :=
  (process_eq_error_iff.2 h.prepare).1

/-- A valid configuration processes exactly the trees it suits. -/
lemma exists_result_process_iff (hvalid : config.validate = .ok ()) :
    (∃ n, (config.process t).result = .ok n) ↔ config.Suits t := by
  have horder := checkOrder_of_validate hvalid
  have hsearch := Substitution.validate_eq_ok_iff.1 (validate_substitutions_of_validate hvalid)
  constructor
  · rintro ⟨n, hn⟩
    have hfails : ∀ e u, ¬ config.Fails t e u := by
      intro e u h
      rw [h.process] at hn
      exact nomatch hn
    have hresolves : ∀ selector ∈ config.suppressed, t.Resolves selector := by
      by_contra hnot
      obtain ⟨front, selector, hfirst⟩ := exists_firstFailing hnot
      cases hselect : (t.select selector).value with
      | ok ids => exact hfirst.2.2 (Tree.select_eq_ok_iff.1 ⟨ids, hselect⟩)
      | error e => exact hfails _ _ (.selector horder hsearch hfirst hselect)
    refine ⟨hresolves, ?_⟩
    by_contra hnot
    obtain ⟨front, rename, hfirst⟩ := exists_firstFailing hnot
    exact hfails _ _ (.rename horder hsearch hresolves hfirst)
  · intro hsuits
    cases hresult : (config.process t).result with
    | ok n => exact ⟨n, rfl⟩
    | error e =>
      obtain ⟨u, hfails⟩ := fails_of_process hresult
      cases hfails with
      | order h => exact absurd h (by simp [horder])
      | substitution _ hempty => exact absurd hsearch hempty.not_forall
      | selector _ _ hnothing _ => exact absurd hsuits.resolves hnothing.not_forall
      | rename _ _ _ hmissing => exact absurd hsuits.declares hmissing.not_forall

/-! ## The stages of a run -/

lemma run_of_validate_error (h : config.validate = .error e) (frontEnd : FrontEnd)
    (emitter : Emitter) : config.run frontEnd emitter = ⟨.error e, []⟩ := by
  rw [run, h]
  rfl

section Stages

variable (hvalid : config.validate = .ok ())

include hvalid

lemma value_run_of_unparsed (h : (frontEnd config.headerOptions).value = .error e) :
    (config.run frontEnd emitter).value = .error e := by
  rw [run, hvalid]
  simp only [Logged.value_bind, h]
  rfl

variable (hparsed : (frontEnd config.headerOptions).value = .ok t)

include hparsed

lemma value_run_of_parsed :
    (config.run frontEnd emitter).value = (config.generate emitter t).value := by
  rw [run, hvalid]
  simp only [Logged.value_bind, hparsed]

lemma value_run_of_process_error (h : (config.process t).result = .error e) :
    (config.run frontEnd emitter).value = .error e := by
  rw [value_run_of_parsed hvalid hparsed, generate, h]

lemma value_run_of_emit_error {reason : String} (hsuits : config.Suits t)
    (hemit : emitter (config.process t).tree = .error reason) :
    (config.run frontEnd emitter).value = .error (.emit reason) := by
  obtain ⟨n, hn⟩ := (exists_result_process_iff hvalid).2 hsuits
  rw [value_run_of_parsed hvalid hparsed, generate, hn, emit_of_error hemit]

lemma value_run_of_emit {files : List OutputFile} (hsuits : config.Suits t)
    (hemit : emitter (config.process t).tree = .ok files) :
    (config.run frontEnd emitter).value =
      .ok ((config.process t).tree, config.substituted files) := by
  obtain ⟨n, hn⟩ := (exists_result_process_iff hvalid).2 hsuits
  rw [value_run_of_parsed hvalid hparsed, generate, hn, emit_of_ok hvalid hemit]

end Stages

/-! ## The ways to fail -/

/-- A run stops with an error, at the first stage that cannot be done. -/
inductive Stops (config : Config) (frontEnd : FrontEnd) (emitter : Emitter) :
    BindingError → Prop where
  | order {e : PassError} (horder : Pass.checkOrder config.passes = .error e) :
      config.Stops frontEnd emitter (.passes e)
  | substitution {front : List Substitution} {s : Substitution}
      (horder : Pass.checkOrder config.passes = .ok ())
      (hempty : FirstFailing (fun s => s.search ≠ "") config.substitutions front s) :
      config.Stops frontEnd emitter (.write (.emptySubstitution front.length))
  | frontEnd {e : BindingError} (hvalid : config.validate = .ok ())
      (hunparsed : (frontEnd config.headerOptions).value = .error e) :
      config.Stops frontEnd emitter e
  | selector {t : Tree} {front : List Selector} {selector : Selector} {e : PassError}
      (hvalid : config.validate = .ok ())
      (hparsed : (frontEnd config.headerOptions).value = .ok t)
      (hnothing : FirstFailing t.Resolves config.suppressed front selector)
      (hselect : (t.select selector).value = .error e) :
      config.Stops frontEnd emitter (.passes e)
  | rename {t : Tree} {front : List Renaming} {r : Renaming}
      (hvalid : config.validate = .ok ())
      (hparsed : (frontEnd config.headerOptions).value = .ok t)
      (hresolves : ∀ selector ∈ config.suppressed, t.Resolves selector)
      (hmissing : FirstFailing (fun r => t.Declares r.headerName) config.renames front r) :
      config.Stops frontEnd emitter (.passes (.declarationNotFound r.headerName))
  | emitter {t : Tree} {reason : String} (hvalid : config.validate = .ok ())
      (hparsed : (frontEnd config.headerOptions).value = .ok t) (hsuits : config.Suits t)
      (hemit : emitter (config.process t).tree = .error reason) :
      config.Stops frontEnd emitter (.emit reason)

lemma stops_of_validate (h : config.validate = .error e) : config.Stops frontEnd emitter e := by
  cases horder : Pass.checkOrder config.passes with
  | error e' =>
    obtain rfl : BindingError.passes e' = e := by simpa [validate_of_order horder] using h
    exact .order horder
  | ok valid =>
    cases hsearch : Substitution.validate config.substitutions with
    | error e' =>
      obtain rfl : BindingError.write e' = e := by
        simpa [validate_of_substitutions horder hsearch] using h
      obtain ⟨front, s, hfirst, rfl⟩ := Substitution.validate_eq_error_iff.1 hsearch
      exact .substitution horder hfirst
    | ok valid =>
      rw [validate_of_ok horder hsearch] at h
      exact nomatch h

lemma Stops.of_fails {u : Tree} (hvalid : config.validate = .ok ())
    (hparsed : (frontEnd config.headerOptions).value = .ok t) (h : config.Fails t e u) :
    config.Stops frontEnd emitter e := by
  cases h with
  | order horder => exact .order horder
  | substitution horder hempty => exact .substitution horder hempty
  | selector _ _ hnothing hselect => exact .selector hvalid hparsed hnothing hselect
  | rename _ _ hresolves hmissing => exact .rename hvalid hparsed hresolves hmissing

lemma Stops.value_run (h : config.Stops frontEnd emitter e) :
    (config.run frontEnd emitter).value = .error e := by
  cases h with
  | order horder => rw [run_of_validate_error (validate_of_order horder)]
  | @substitution front s horder hempty =>
    have hsearch := Substitution.validate_eq_error_iff.2 ⟨front, s, hempty, rfl⟩
    rw [run_of_validate_error (validate_of_substitutions horder hsearch)]
  | frontEnd hvalid hunparsed => exact value_run_of_unparsed hvalid hunparsed
  | selector hvalid hparsed hnothing hselect =>
    have hsearch := Substitution.validate_eq_ok_iff.1 (validate_substitutions_of_validate hvalid)
    have hfails := Fails.selector (checkOrder_of_validate hvalid) hsearch hnothing hselect
    exact value_run_of_process_error hvalid hparsed hfails.process
  | rename hvalid hparsed hresolves hmissing =>
    have hsearch := Substitution.validate_eq_ok_iff.1 (validate_substitutions_of_validate hvalid)
    have hfails := Fails.rename (checkOrder_of_validate hvalid) hsearch hresolves hmissing
    exact value_run_of_process_error hvalid hparsed hfails.process
  | emitter hvalid hparsed hsuits hemit =>
    exact value_run_of_emit_error hvalid hparsed hsuits hemit

/-- What comes of a run: the error of a stage that stops it, or the processed tree and the files of
the emitter with the substitutions applied. -/
lemma run_cases (config : Config) (frontEnd : FrontEnd) (emitter : Emitter) :
    (∃ e, config.Stops frontEnd emitter e) ∨
      ∃ t files, config.validate = .ok () ∧ (frontEnd config.headerOptions).value = .ok t ∧
        config.Suits t ∧ emitter (config.process t).tree = .ok files := by
  cases hvalid : config.validate with
  | error e => exact .inl ⟨e, stops_of_validate hvalid⟩
  | ok valid =>
    cases hparsed : (frontEnd config.headerOptions).value with
    | error e => exact .inl ⟨e, .frontEnd hvalid hparsed⟩
    | ok t =>
      cases hresult : (config.process t).result with
      | error e =>
        obtain ⟨u, hfails⟩ := fails_of_process hresult
        exact .inl ⟨e, .of_fails hvalid hparsed hfails⟩
      | ok n =>
        have hsuits := (exists_result_process_iff hvalid).1 ⟨n, hresult⟩
        cases hemit : emitter (config.process t).tree with
        | error reason => exact .inl ⟨_, .emitter hvalid hparsed hsuits hemit⟩
        | ok files => exact .inr ⟨t, files, rfl, rfl, hsuits, hemit⟩

/-- A configuration that is not valid stops a run whatever the front end and the emitter are.  Any
run stops exactly with the errors of `Stops`.  It succeeds exactly if the emitter does on the
processed tree, and then it gives this tree and the emitted files with the substitutions applied:
nothing can fail behind the emitter, and nothing but the emitter behind the renamings. -/
theorem run_stops_iff (config : Config) (frontEnd : FrontEnd) (emitter : Emitter) :
    (∀ e, config.validate = .error e → config.run frontEnd emitter = ⟨.error e, []⟩) ∧
    (∀ e, (config.run frontEnd emitter).value = .error e ↔ config.Stops frontEnd emitter e) ∧
    ∀ u files, (config.run frontEnd emitter).value = .ok (u, files) ↔
      ∃ t emitted, config.validate = .ok () ∧ (frontEnd config.headerOptions).value = .ok t ∧
        config.Suits t ∧ emitter (config.process t).tree = .ok emitted ∧
        u = (config.process t).tree ∧ files = config.substituted emitted := by
  refine ⟨fun e h => run_of_validate_error h frontEnd emitter,
    fun e => ⟨fun h => ?_, Stops.value_run⟩,
    fun u files => ⟨fun h => ?_, ?_⟩⟩
  · rcases config.run_cases frontEnd emitter with
      ⟨e', hstops⟩ | ⟨t, files, hvalid, hparsed, hsuits, hemit⟩
    · obtain rfl : e' = e := by simpa [hstops.value_run] using h
      exact hstops
    · rw [value_run_of_emit hvalid hparsed hsuits hemit] at h
      exact nomatch h
  · rcases config.run_cases frontEnd emitter with
      ⟨e, hstops⟩ | ⟨t, emitted, hvalid, hparsed, hsuits, hemit⟩
    · rw [hstops.value_run] at h
      exact nomatch h
    · rw [value_run_of_emit hvalid hparsed hsuits hemit] at h
      cases h
      exact ⟨t, emitted, hvalid, hparsed, hsuits, hemit, rfl, rfl⟩
  · rintro ⟨t, emitted, hvalid, hparsed, hsuits, hemit, rfl, rfl⟩
    exact value_run_of_emit hvalid hparsed hsuits hemit

/-- With two passes in the wrong order nothing is read.  In the right order `sampleTree` is, and
then everything depends on the emitter. -/
theorem run_stops_sampleConfig :
    (∀ frontEnd emitter,
      ({ sampleConfig with passes := [.separateNames, .promoteFunctions false] }.run frontEnd
        emitter) = ⟨.error (.passes (.passOrder .promoteFunctions .separateNames)), []⟩) ∧
    (sampleConfig.run (fun _ => pure (.ok sampleTree)) (.withoutTemplate "class")).value =
      .error (.emit "template \"class\" is missing") ∧
    ∀ files, (sampleConfig.run (fun _ => pure (.ok sampleTree)) (.prepared files)).value =
      .ok ((sampleConfig.process sampleTree).tree, sampleConfig.substituted files) := by
  have hresolves : sampleTree.Resolves (.global "igGlobal") :=
    Tree.select_eq_ok_iff.1 ⟨[4], by decide +kernel⟩
  have hsuits : sampleConfig.Suits sampleTree :=
    ⟨by simpa [sampleConfig] using hresolves, by simp [sampleConfig, standard]⟩
  refine ⟨fun frontEnd emitter => ?_, ?_, fun files => ?_⟩
  · exact (run_stops_iff _ frontEnd emitter).1 _ rfl
  · exact ((run_stops_iff sampleConfig _ _).2.1 _).2 (.emitter rfl rfl hsuits rfl)
  · exact ((run_stops_iff sampleConfig _ _).2.2 _ _).2
      ⟨sampleTree, files, rfl, rfl, hsuits, rfl, rfl, rfl⟩

end Bindery.Config
