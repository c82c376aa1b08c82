import Bindery.Proofs.Frame
import Bindery.Proofs.Pass.Accessibility
import Bindery.Proofs.Pass.ClashWarnings
import Bindery.Proofs.Pass.DefaultRuns
import Bindery.Proofs.Pass.OpaqueHandles
import Bindery.Proofs.Tree.TypedefChains

/-!
# Every recovery is reported once

Four passes get over something that cannot be expressed as it is, and each says so with a warning:
a name that clashes is changed, a default value that cannot be used is dropped, a property that
points to a handle is left to be written by hand, and a private type that the interface mentions
stays private.  The trees before and after a pass tell what there was to report, and the log has one
warning for each of these and no other (`warnings_exact`).

New names are dealt with in `ClashWarnings`.  The rounds in which types are made public keep a list
of what has been reported; what mentions a private type stays visible, so what one round reports is
there to be reported in the end (`mentionedPrivate_subset`, `reports_publishRounds`).
-/

namespace Bindery

/-! ## Positions of default values -/

/-- An argument of a function or method; where there is none, one without a default value. -/
def Decl.argumentAt (d : Decl) (i : Nat) : Argument :=
  (d.signature?.bind (·.arguments[i]?)).getD default

lemma Decl.defaultValue_argumentAt (d : Decl) (i : Nat) :
    (d.argumentAt i).defaultValue = d.defaultValues[i]?.join := by
  rw [argumentAt, defaultValues, defaults?]
  cases d.signature? with
  | none => rfl
  | some s =>
    simp only [Option.bind_some, Option.map_some, Option.getD_some, Signature.defaults,
      List.getElem?_map]
    cases s.arguments[i]? <;> rfl

/-- The positions of the default values that cannot be used. -/
def unusablePositions (values : List (Option String)) : List Nat :=
  (List.range values.length).filter fun i =>
    values[i]?.join.isSome && (trailingDefaults values)[i]?.join.isNone

lemma unusablePositions_cons (value : Option String) (values : List (Option String)) :
    unusablePositions (value :: values) =
      (if value.isSome && !values.all (·.isSome) then [0] else []) ++
        (unusablePositions values).map Nat.succ := by
  have hfirst : (value.isSome && (trailingDefaults (value :: values))[0]?.join.isNone) =
      (value.isSome && !values.all (·.isSome)) := by
    rw [trailingDefaults]
    cases values.all (·.isSome) <;> cases value <;> rfl
  simp only [unusablePositions, List.length_cons, List.range_succ_eq_map, List.filter_cons,
    List.getElem?_cons_zero, Option.join_some, hfirst, List.filter_map]
  split <;> rfl

lemma unusableDefaults_eq (arguments : List Argument) : unusableDefaults arguments =
    (unusablePositions (arguments.map (·.defaultValue))).map fun i =>
      ((arguments[i]?.getD default).name, (arguments[i]?.getD default).defaultValue.getD "") := by
  induction arguments with
  | nil => rfl
  | cons argument arguments ih =>
    rw [unusableDefaults, List.map_cons, unusablePositions_cons, List.map_append, List.map_map, ih]
    have hall : (arguments.map (·.defaultValue)).all (·.isSome) = arguments.all (·.hasDefault) := by
      rw [List.all_map]
      rfl
    rw [hall]
    cases hvalue : argument.defaultValue with
    | none => simp [Function.comp_def]
    | some value =>
      cases arguments.all (·.hasDefault) <;> simp [Function.comp_def, hvalue]

/-- An unusable value is one that is dropped. -/
lemma mem_unusablePositions_iff {values : List (Option String)} {i : Nat} :
    i ∈ unusablePositions values ↔
      values[i]?.join.isSome = true ∧ (trailingDefaults values)[i]?.join = none := by
  rw [unusablePositions, List.mem_filter, List.mem_range, Bool.and_eq_true,
    Option.isNone_iff_eq_none, and_iff_right_iff_imp]
  rintro ⟨hsome, -⟩
  by_contra hle
  rw [List.getElem?_eq_none (Nat.le_of_not_lt hle)] at hsome
  exact Bool.false_ne_true hsome

namespace Tree

variable {t u : Tree} {id : Nat}

/-! ## Default values that are dropped -/

/-- The warning that a parameter loses its default value. -/
def dropWarning (t : Tree) (parameter : Nat × Nat) : Message :=
  let argument := (t.decl parameter.1).argumentAt parameter.2
  ⟨.warn, t.qualifiedName parameter.1 ++ ": dropping default value " ++
    argument.defaultValue.getD "" ++ " of \"" ++ argument.name ++
    "\" as a later parameter has none"⟩

/-- The parameters of a function or method that lose their default values, beginning with the
last. -/
def droppedOf (t : Tree) (id : Nat) : List (Nat × Nat) :=
  (unusablePositions (t.decl id).defaultValues).reverse.map fun i => (id, i)

lemma log_dropDefaultsOf (t : Tree) (id : Nat) :
    (t.dropDefaultsOf id).log = (t.droppedOf id).map t.dropWarning := by
  unfold dropDefaultsOf droppedOf
  cases hs : (t.decl id).signature? with
  | none =>
    rw [Decl.defaultValues, Decl.defaults?, hs]
    rfl
  | some s =>
    rw [Decl.defaultValues_of_signature? hs, Signature.defaults]
    simp only [unusableDefaults_eq, ← List.map_reverse, List.map_map, Function.comp_def,
      dropWarning, Decl.argumentAt, hs, Option.bind_some]

lemma nodup_droppedOf (t : Tree) (id : Nat) : (t.droppedOf id).Nodup := by
  have hpositions : (unusablePositions (t.decl id).defaultValues).Nodup := List.nodup_range.filter _
  exact (List.nodup_reverse.2 hpositions).map (Prod.mk_right_injective id)

/-- The parameters that are reported are those that lose their value. -/
lemma mem_droppedOf_iff {parameter : Nat × Nat} : parameter ∈ t.droppedOf id ↔
    parameter.1 = id ∧ ((t.decl id).argumentAt parameter.2).defaultValue.isSome = true ∧
      (trailingDefaults (t.decl id).defaultValues)[parameter.2]?.join = none := by
  obtain ⟨id', i⟩ := parameter
  simp only [droppedOf, List.mem_map, List.mem_reverse, mem_unusablePositions_iff, Prod.mk.injEq,
    Decl.defaultValue_argumentAt]
  constructor
  · rintro ⟨j, hj, rfl, rfl⟩
    exact ⟨rfl, hj⟩
  · rintro ⟨rfl, hi⟩
    exact ⟨i, hi, rfl, rfl⟩

lemma droppedOf_congr (hsame : u.decl id = t.decl id)
    (hname : u.qualifiedName id = t.qualifiedName id) :
    (u.droppedOf id).map u.dropWarning = (t.droppedOf id).map t.dropWarning := by
  rw [droppedOf, droppedOf, hsame, List.map_map, List.map_map]
  refine List.map_congr_left fun i _ => ?_
  simp only [Function.comp_apply, dropWarning, hsame, hname]

lemma log_dropDefaults (t : Tree) : t.dropDefaults.log =
    (t.walk.filter fun id => (t.decl id).kind.isCallable && !(t.decl id).ignored).flatMap fun id =>
      (t.droppedOf id).map t.dropWarning := by
  refine Progress.log_sweep_of_own (I := fun u => t.Develops [.defaults] u ∧ u.size = t.size)
    (fun u id hu hsame => ?_)
    (fun u id hu _ => ⟨hu.1.trans (develops_dropDefaultsOf u id),
      (size_dropDefaultsOf u id).trans hu.2⟩)
    (fun u {_ _} => givesDefaults_dropDefaultsOf.decl_of_ne) (t.nodup_walk.filter _)
    ⟨.refl _ t, rfl⟩
  rw [log_dropDefaultsOf]
  exact droppedOf_congr hsame (hu.1.qualifiedName_eq hu.2 (by simp) id)

/-- The parameters that have a default value in `t` and none in `u`. -/
def droppedDefaults (t u : Tree) : Set (Nat × Nat) :=
  {parameter | ((t.decl parameter.1).argumentAt parameter.2).defaultValue.isSome = true ∧
    ((u.decl parameter.1).argumentAt parameter.2).defaultValue = none}

/-- What is dropped is reported, and nothing else is. -/
lemma reports_dropDefaults (t : Tree) :
    Reports (t.droppedDefaults t.dropDefaults.tree) t.dropWarning t.dropDefaults.log := by
  rw [log_dropDefaults]
  refine Reports.flatMap (t.nodup_walk.filter _) t.nodup_droppedOf
    (fun i j _ hi hj => (mem_droppedOf_iff.1 hi).1.symm.trans (mem_droppedOf_iff.1 hj).1)
    (fun parameter => ⟨?_, ?_⟩) _
  · obtain ⟨id, i⟩ := parameter
    rintro ⟨hbefore, hafter⟩
    have hid : id < t.size := by
      by_contra hle
      rw [decl_of_size_le (Nat.le_of_not_lt hle)] at hbefore
      exact Bool.false_ne_true hbefore
    rw [Decl.defaultValue_argumentAt, defaultValues_dropDefaults hid] at hafter
    split at hafter
    · next hopen =>
      exact ⟨id, List.mem_filter.2 ⟨mem_walk_iff.2 hid, hopen⟩,
        mem_droppedOf_iff.2 ⟨rfl, hbefore, hafter⟩⟩
    · rw [← Decl.defaultValue_argumentAt] at hafter
      exact absurd hbefore (by simp [hafter])
  · rintro ⟨_, hmem, hdropped⟩
    obtain ⟨rfl, hbefore, hafter⟩ := mem_droppedOf_iff.1 hdropped
    obtain ⟨hwalk, hopen⟩ := List.mem_filter.1 hmem
    refine ⟨hbefore, ?_⟩
    rw [Decl.defaultValue_argumentAt, defaultValues_dropDefaults (mem_walk_iff.1 hwalk),
      if_pos hopen]
    exact hafter

/-! ## Properties that are left to be written by hand -/

section Handles

variable {type : QualType} {message : Message}

/-- The warning that a property has to be written by hand. -/
def handWarning (t : Tree) (id : Nat) : Message :=
  ⟨.warn, "Property \"" ++ t.qualifiedName id ++ "\" of type " ++ propertyTypeText (t.decl id) ++
    " needs a manual implementation, ignoring it"⟩

/-- A message that a chain of typedefs is too deep, about one that is as long as the limit or
longer. -/
def IsTooDeep (t : Tree) (message : Message) : Prop :=
  ∃ type, message = tooDeep type ∧ typedefLimit ≤ t.chainLength type

/-- Following typedefs says nothing except that a chain is too deep. -/
lemma isTooDeep_of_mem_behindTypedefs (h : message ∈ (t.behindTypedefs type).log) :
    t.IsTooDeep message := by
  rw [log_behindTypedefs] at h
  split at h
  · next hall => exact ⟨type, List.mem_singleton.1 h, follow_snd_iff.1 hall⟩
  · exact absurd h List.not_mem_nil

lemma isTooDeep_of_mem_isOpaque (h : message ∈ (t.isOpaque type).log) : t.IsTooDeep message := by
  rw [isOpaque, Logged.log_bind, Logged.log_pure, List.append_nil] at h
  exact isTooDeep_of_mem_behindTypedefs h

lemma isTooDeep_of_mem_pointsToHandle (h : message ∈ (t.pointsToHandle type).log) :
    t.IsTooDeep message := by
  unfold pointsToHandle at h
  split at h
  · exact absurd h List.not_mem_nil
  · split at h
    · exact absurd h List.not_mem_nil
    · rw [Logged.log_bind, List.mem_append] at h
      rcases h with h | h
      · exact isTooDeep_of_mem_behindTypedefs h
      · split at h
        · exact absurd h List.not_mem_nil
        · exact isTooDeep_of_mem_isOpaque h

lemma isTooDeep_of_mem_isUnmarkedHandle (h : message ∈ (t.isUnmarkedHandle id).log) :
    t.IsTooDeep message := by
  unfold isUnmarkedHandle at h
  split at h
  · exact isTooDeep_of_mem_pointsToHandle h
  · exact absurd h List.not_mem_nil

lemma log_sweep_leaveToHand {ids : List Nat} (hids : ids.Nodup) (t : Tree) :
    (Progress.sweep leaveToHand ids t).log = ids.map t.handWarning := by
  rw [List.map_eq_flatMap]
  refine Progress.log_sweep_of_own
    (I := fun u => t.Develops [.ignored, .manual] u ∧ u.size = t.size) (fun u id hu hsame => ?_)
    (fun u id hu _ => ⟨hu.1.trans (develops_leaveToHand u id), (size_leaveToHand u id).trans hu.2⟩)
    (fun u id i hne => ?_) hids ⟨.refl _ t, rfl⟩
  · rw [handWarning, ← hsame, ← hu.1.qualifiedName_eq hu.2 (by simp)]
    rfl
  · rw [decl_leaveToHand, if_neg fun h => hne h.1]

/-- A property is marked on the way if it is found by the pass. -/
lemma newlyManual_iff : (t.leaveHandlesToHand.tree.decl id).isManual = true ∧
    (t.decl id).isManual = false ↔ (t.isUnmarkedHandle id).value = true := by
  rw [decl_leaveHandlesToHand]
  split
  · next hunmarked =>
    obtain ⟨hpoints, hmanual⟩ := isUnmarkedHandle_iff_pointsToHandle.1 hunmarked
    exact iff_of_true ⟨isManual_leftToHand hpoints.kind_eq, hmanual⟩ hunmarked
  · next hmarked =>
    refine iff_of_false (fun h => ?_) hmarked
    exact absurd (h.1.symm.trans h.2) (by decide)

/-- Besides chains that are too deep the properties that get the mark are reported, and nothing
else is. -/
lemma reports_leaveHandlesToHand (t : Tree) : ∃ chains reports,
    t.leaveHandlesToHand.log = chains ++ reports ∧ (∀ message ∈ chains, t.IsTooDeep message) ∧
      Reports {id | (t.leaveHandlesToHand.tree.decl id).isManual = true ∧
        (t.decl id).isManual = false} t.handWarning reports := by
  have hnodup : (Logged.filter t.isUnmarkedHandle t.walk).value.Nodup := by
    rw [Logged.value_filter]
    exact t.nodup_walk.filter _
  refine ⟨_, _, rfl, fun message hmem => ?_, ?_⟩
  · rw [Logged.log_filter] at hmem
    obtain ⟨id, -, hmem⟩ := List.mem_flatMap.1 hmem
    exact isTooDeep_of_mem_isUnmarkedHandle hmem
  · refine ⟨_, hnodup, fun id => ?_, log_sweep_leaveToHand hnodup t⟩
    rw [Logged.value_filter, List.mem_filter, Set.mem_ofPred_eq, newlyManual_iff,
      and_iff_right_iff_imp, mem_walk_iff]
    intro hunmarked
    obtain ⟨type, hpayload, -⟩ := isUnmarkedHandle_iff.1 hunmarked
    exact lt_size_of_kind (by simp [Decl.kind, hpayload, Payload.kind])

end Handles

/-! ## Private types that are mentioned -/

section PrivateTypes

variable {reported : List Nat}

/-- That a type is made public is no warning. -/
lemma warnings_sweep_publish (ids : List Nat) (t : Tree) :
    (Progress.sweep publish ids t).log.warnings = [] := by
  induction ids generalizing t with
  | nil => rfl
  | cons id ids ih =>
    rw [Progress.sweep_cons, Progress.log_andThen, Log.warnings_append, ih]
    rfl

/-- The private types directly inside a class that are not kept out and that a visible declaration
mentions. -/
def mentionedPrivate (t : Tree) : Set Nat :=
  {id | (t.decl id).kind.isType = true ∧ (t.decl id).ignored = false ∧
    (∃ p, t.parent? id = some p ∧ (t.decl p).kind = .classType) ∧
    (t.decl id).access = .isPrivate ∧
    ∃ i < t.size, (t.decl i).kind.isInterface = true ∧ t.isVisible i = true ∧
      (t.decl id).usr ∈ (t.decl i).references}

lemma mem_mentionedPrivate_iff : id ∈ t.mentionedPrivate ↔
    id ∈ t.mentionedNestedTypes ∧ (t.decl id).access = .isPrivate := by
  rw [mem_mentionedNestedTypes_iff, mem_mentioned_iff]
  simp only [mentionedPrivate, Set.mem_ofPred_eq, isTypeInClass, Option.any_eq_true,
    Bool.and_eq_true, Bool.not_eq_true', decide_eq_true_eq]
  constructor
  · rintro ⟨htype, hopen, ⟨p, hp, hclass⟩, hprivate, hmentioned⟩
    exact ⟨⟨lt_size_of_parent? hp, ⟨⟨htype, hopen⟩, p, hp, hclass⟩, hmentioned⟩, hprivate⟩
  · rintro ⟨⟨-, ⟨⟨htype, hopen⟩, hclass⟩, hmentioned⟩, hprivate⟩
    exact ⟨htype, hopen, hclass, hprivate, hmentioned⟩

lemma mem_unreported_iff :
    id ∈ t.unreported reported ↔ id ∈ t.mentionedPrivate ∧ id ∉ reported := by
  simp only [unreported, mem_mentionedPrivate_iff, List.mem_filter, Bool.and_eq_true,
    decide_eq_true_eq, Bool.not_eq_true', List.contains_eq_mem, decide_eq_false_iff_not, and_assoc]

/-- A private type stays private, and what is mentioned stays mentioned. -/
theorem mentionedPrivate_subset (t : Tree) (reported : List Nat) :
    t.mentionedPrivate ⊆ (t.publishRounds reported).tree.mentionedPrivate := by
  intro id hid
  obtain ⟨hmem, hprivate⟩ := mem_mentionedPrivate_iff.1 hid
  refine mem_mentionedPrivate_iff.2
    ⟨(opened_publishRounds t reported).mem_mentionedNestedTypes_of hmem, ?_⟩
  rcases (t.steps_publishRounds reported).access_cases (mem_mentionedNestedTypes_iff.1 hmem).1 with
    hsame | ⟨-, -, hprotected, -⟩
  · exact hsame.trans hprivate
  · exact absurd (hprivate.symm.trans hprotected) (by decide)

lemma privateTypeWarning_of_opened (h : Opened t u) (id : Nat) :
    u.privateTypeWarning id = t.privateTypeWarning id := by
  rw [privateTypeWarning, privateTypeWarning, qualifiedName_congr (h.lineage_eq id) fun e _ =>
    ⟨h.reads Decl.kind (fun _ => rfl) e, h.reads Decl.name (fun _ => rfl) e⟩]

/-- In the end every private type that the interface mentions then has been reported, some of them
before these rounds and the others in them. -/
theorem reports_publishRounds (t : Tree) (reported : List Nat) :
    Reports {id | id ∈ (t.publishRounds reported).tree.mentionedPrivate ∧ id ∉ reported}
      t.privateTypeWarning (t.publishRounds reported).log.warnings := by
  have hwarn (t : Tree) (id : Nat) : (t.privateTypeWarning id).level = .warn := rfl
  have hnodup (t : Tree) (reported : List Nat) : (t.unreported reported).Nodup :=
    (t.nodup_walk.filter _).filter _
  induction t, reported using publishRounds.induct with
  | case1 t reported found hnil =>
    rw [publishRounds_eq_of_nil hnil, Log.warnings_map_of_warn (hwarn t)]
    exact ⟨_, hnodup t reported, fun _ => mem_unreported_iff, rfl⟩
  | case2 t reported found secret id ids hcons published ih =>
    have hopened : Opened t published.tree := opened_sweep_publish t (id :: ids)
    have hsubset := mentionedPrivate_subset t reported
    rw [publishRounds_eq_of_cons reported hcons] at hsubset ⊢
    rw [Progress.log_andThen, Progress.log_andThen, Log.warnings_append, Log.warnings_append,
      Log.warnings_map_of_warn (hwarn t), warnings_sweep_publish, List.append_nil]
    have hrest : Reports _ t.privateTypeWarning _ :=
      ih.congr fun i _ => (privateTypeWarning_of_opened hopened i).symm
    refine ((Reports.of_nodup (hnodup t reported) _).append hrest ?_).of_mem_iff fun i => ?_
    · exact fun i hi h => h.2 (List.mem_append_right _ hi)
    · -- what this round reports is mentioned, and private, in the end as well
      simp only [Set.mem_union, Set.mem_ofPred_eq]
      constructor
      · rintro ⟨hi, hunreported⟩
        by_cases hnow : i ∈ t.unreported reported
        · exact .inl hnow
        · exact .inr ⟨hi, fun h => (List.mem_append.1 h).elim hunreported hnow⟩
      · rintro (hnow | ⟨hi, hlater⟩)
        · exact (mem_unreported_iff.1 hnow).imp_left (@hsubset i)
        · exact ⟨hi, fun h => hlater (List.mem_append_left _ h)⟩

end PrivateTypes

/-! ## All four passes -/

/-- The passes warn once of each declaration that they rename, of each default value that they drop,
of each property that they mark, and of each private nested type that the interface mentions in the
end.  Beyond that they warn of nothing but chains of typedefs that are too deep. -/
theorem warnings_exact (t : Tree) :
    Reports {id | (t.separateAllNames.tree.decl id).name ≠ (t.decl id).name}
      (t.clashWarning t.separateAllNames.tree) t.separateAllNames.log ∧
    Reports (t.droppedDefaults t.dropDefaults.tree) t.dropWarning t.dropDefaults.log ∧
    (∃ chains reports, t.leaveHandlesToHand.log = chains ++ reports ∧
      (∀ message ∈ chains, t.IsTooDeep message) ∧
      Reports {id | (t.leaveHandlesToHand.tree.decl id).isManual = true ∧
        (t.decl id).isManual = false} t.handWarning reports) ∧
    Reports t.publishNestedTypes.tree.mentionedPrivate t.privateTypeWarning
      t.publishNestedTypes.log.warnings := by
  refine ⟨reports_separateAllNames t, reports_dropDefaults t, reports_leaveHandlesToHand t, ?_⟩
  exact (reports_publishRounds t []).of_mem_iff fun id => by simp [publishNestedTypes]

end Tree

end Bindery
