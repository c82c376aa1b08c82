import Bindery.Proofs.Pass.Accessibility
import Bindery.Proofs.Pass.DefaultChanges
import Bindery.Proofs.Pass.Run

/-!
# What a pass counts

A pass adds up its changes while it makes them.  Comparing the tree it leaves with the one it was
given comes to the same number (`Pass.result_run`): `Pass.effectOn` says for each pass what is
looked for in the comparison, and every declaration is looked at once.

Most passes make at most one change to a declaration, and never look at it again.  The exceptions
are the names of a scope, which are given by going through all of its declarations
(`changes_separateNames`), and the rounds in which types are made public: what an early round has
made public is no longer protected in a later one (`changes_publishRounds`).
-/

namespace Bindery

/-! ## Comparing declarations -/

/-- One if declarations differ in what is read of them. -/
def differs {α : Type} [DecidableEq α] (read : Decl → α) (a b : Decl) : Nat :=
  if read a = read b then 0 else 1

section differs

variable {α : Type} [DecidableEq α] {read : Decl → α} {a b : Decl}

lemma differs_self (read : Decl → α) (d : Decl) : differs read d d = 0 := if_pos rfl

lemma differs_of_ne (h : read a ≠ read b) : differs read a b = 1 := if_neg h

lemma differs_eq_zero_iff : differs read a b = 0 ↔ read a = read b := by
  unfold differs
  split
  · next h => simp [h]
  · next h => simp [h]

end differs

/-- One if a declaration has come to be kept out. -/
def newlyIgnored (a b : Decl) : Nat := (!a.ignored && b.ignored).toNat

lemma newlyIgnored_self (d : Decl) : newlyIgnored d d = 0 := by
  unfold newlyIgnored
  cases d.ignored <;> rfl

namespace Tree

variable {t u : Tree} {id : Nat}

/-! ## Marks and access levels -/

lemma flags?_classifyEnum (h : id < t.size) :
    ((t.classifyEnum id).tree.decl id).flags? = (t.decl id).demandedFlags? := by
  rw [classifiedAt_iff.1 (classifiedAt_classifyEnum t id),
    (develops_classifyEnum t id).reads Decl.demandedFlags? Decl.demandedFlags?_shape h]

lemma changes_classifyEnums_eq_tally (t : Tree) :
    t.classifyEnums.changes = t.tally (differs Decl.flags?) t.classifyEnums.tree := by
  refine Progress.changes_sweep_of_own (Q := fun _ => True) (differs_self _)
    (fun t id => (size_classifyEnum t id).ge) (fun _ hne => decl_classifyEnum_of_ne hne) ?_
    t.nodup_walk (fun id hid => mem_walk_iff.1 hid) fun _ _ => trivial
  intro t id hid _
  rw [changes_classifyEnum, differs, flags?_classifyEnum hid, Decl.isMismarked, decide_not]
  simp only [Bool.not_eq_true', decide_eq_false_iff_not, ite_not]

lemma lt_size_of_isProtected (h : (t.decl id).access = .isProtected) : id < t.size :=
  List.mem_range.1 (List.mem_filter.1 (mem_restricted h)).1

lemma access_publish (h : id < t.size) : ((t.publish id).tree.decl id).access = .isPublic := by
  rw [publish, Progress.edited, decl_edit, if_pos ⟨rfl, h⟩]
  rfl

/-- In one round each type is made public once. -/
lemma changes_sweep_publish {ids : List Nat} (hids : ids.Nodup)
    (hprotected : ∀ id ∈ ids, (t.decl id).access = .isProtected) :
    (Progress.sweep publish ids t).changes =
      t.tally (differs Decl.access) (Progress.sweep publish ids t).tree := by
  refine Progress.changes_sweep_of_own (Q := fun d => d.access = .isProtected) (differs_self _)
    (fun t id => (size_publish t id).ge) (fun _ hne => decl_edit_of_ne hne _) ?_ hids
    (fun id hid => lt_size_of_isProtected (hprotected id hid)) hprotected
  intro t id hid hbefore
  refine (differs_of_ne ?_).symm
  rw [access_publish hid, hbefore]
  decide

/-- What has been made public in one round is not changed in another. -/
theorem changes_publishRounds (t : Tree) (reported : List Nat) :
    (t.publishRounds reported).changes =
      t.tally (differs Decl.access) (t.publishRounds reported).tree := by
  induction t, reported using publishRounds.induct with
  | case1 t reported found hnil =>
    obtain ⟨htree, hchanges⟩ := @publishRounds_of_nil t reported hnil
    rw [htree, hchanges, tally_self (differs_self _)]
  | case2 t reported found secret id ids hcons published ih =>
    obtain ⟨htree, hchanges⟩ := publishRounds_of_cons reported hcons
    have hround : published.changes = t.tally (differs Decl.access) published.tree := by
      refine changes_sweep_publish ?_ ?_
      · rw [← hcons]
        exact (t.nodup_walk.filter _).filter _
      · rw [← hcons]
        exact fun i hi => of_decide_eq_true (List.mem_filter.1 hi).2
    have hopened : Opened t published.tree := opened_sweep_publish t (id :: ids)
    have hrest := opened_publishRounds published.tree (reported ++ t.unreported reported)
    rw [htree, hchanges]
    refine (congrArg₂ (· + ·) hround ih).trans (Eq.symm ?_)
    refine tally_add_of_size_eq (differs_self _) hopened.size_eq fun i _ => ?_
    rcases hopened.decl_cases i with hsame | hpublic
    · exact .inl hsame
    · -- a later round would make it what it is
      refine .inr ?_
      rcases hrest.decl_cases i with hsame | hagain
      · exact hsame
      · exact hagain.trans (by rw [hpublic])

lemma isManual_leaveToHand {type : QualType} (h : id < t.size)
    (hpayload : (t.decl id).payload = .property type false) :
    ((t.leaveToHand id).tree.decl id).isManual = true := by
  simp only [leaveToHand, decl_edit, size_edit, h, and_self, if_true, Edit.apply,
    Edit.applyPayload, hpayload, Decl.isManual]

lemma decl_leaveToHand_of_ne {i : Nat} (h : id ≠ i) :
    (t.leaveToHand id).tree.decl i = t.decl i := by
  simp only [leaveToHand]
  rw [decl_edit_of_ne h, decl_edit_of_ne h]

lemma changes_leaveHandlesToHand (t : Tree) : t.leaveHandlesToHand.changes =
    t.tally (differs Decl.isManual) t.leaveHandlesToHand.tree := by
  have hfound : ∀ id ∈ (Logged.filter t.isUnmarkedHandle t.walk).value,
      id < t.size ∧ ∃ type, (t.decl id).payload = .property type false := by
    intro id hid
    rw [Logged.value_filter] at hid
    obtain ⟨hwalk, hunmarked⟩ := List.mem_filter.1 hid
    obtain ⟨type, hpayload, -⟩ := isUnmarkedHandle_iff.1 hunmarked
    exact ⟨mem_walk_iff.1 hwalk, type, hpayload⟩
  refine Progress.changes_sweep_of_own (Q := fun d => ∃ type, d.payload = .property type false)
    (differs_self _) (fun t id => (size_leaveToHand t id).ge)
    (fun _ hne => decl_leaveToHand_of_ne hne) ?_ ?_ (fun id hid => (hfound id hid).1)
    fun id hid => (hfound id hid).2
  · rintro t id hid ⟨type, hpayload⟩
    refine (differs_of_ne ?_).symm
    rw [isManual_leaveToHand hid hpayload, Decl.isManual, hpayload]
    exact Bool.false_ne_true
  · rw [Logged.value_filter]
    exact t.nodup_walk.filter _

/-! ## Names -/

lemma tally_rename {name : String} (hid : id < t.size) (hne : (t.decl id).name ≠ name) :
    t.tally (differs Decl.name) (t.edit id (.rename name)) = 1 := by
  rw [tally_eq_single (differs_self _) hid fun i _ h => decl_edit_of_ne h _]
  refine differs_of_ne ?_
  rw [decl_edit, if_pos ⟨rfl, hid⟩]
  exact hne

/-- Going through a scope counts the declarations that get another name: no declaration gets the
name it has, since that is taken. -/
theorem changes_separateNames {taken : List String} {uses : List NameUse} {ids : List Nat}
    {t : Tree} (hids : ids.Nodup) (hlt : ∀ id ∈ ids, id < t.size)
    (htaken : ∀ id ∈ ids, (t.decl id).name ∈ taken) :
    (separateNames taken uses ids t).changes =
      t.tally (differs Decl.name) (separateNames taken uses ids t).tree := by
  induction ids generalizing taken uses t with
  | nil => exact (tally_self (differs_self _) t).symm
  | cons id ids ih =>
    obtain ⟨hid, hids⟩ := List.nodup_cons.1 hids
    rw [List.forall_mem_cons] at hlt htaken
    obtain ⟨log, h⟩ := separateNames_cons taken uses id ids t
    rw [h]
    split
    · have hfresh := freshName_not_mem taken (t.decl id).name
      set fresh := freshName taken (t.decl id).name
      have hother {i : Nat} (hne : id ≠ i) : (t.edit id (.rename fresh)).decl i = t.decl i :=
        decl_edit_of_ne hne _
      have hone : t.tally (differs Decl.name) (t.edit id (.rename fresh)) = 1 :=
        tally_rename hlt.1 fun hname => hfresh (hname ▸ htaken.1)
      have hrest := @ih (fresh :: taken) ({ t.useAt id with name := fresh } :: uses)
        (t.edit id (.rename fresh)) hids (by simpa using hlt.2) fun i hi => by
          rw [hother fun heq => hid (heq ▸ hi)]
          exact List.mem_cons_of_mem _ (htaken.2 i hi)
      rw [Progress.changes_andThen, Progress.tree_andThen]
      refine (congrArg₂ (· + ·) hone.symm hrest).trans (Eq.symm ?_)
      refine tally_add_of_size_eq (differs_self _) (size_edit t id _) fun i _ => ?_
      by_cases hi : id = i
      · exact .inr (decl_separateNames_of_not_mem _ _ _ (hi ▸ hid))
      · exact .inl (hother hi)
    · exact ih hids hlt.2 htaken.2

/-- Every scope names its own children only. -/
lemma changes_separateAllNames (t : Tree) : t.separateAllNames.changes =
    t.tally (differs Decl.name) t.separateAllNames.tree := by
  have hparents (u : Tree) (scope i : Nat) :
      (u.separateNamesIn scope).tree.parent? i = u.parent? i :=
    (develops_separateNamesIn u scope).parent?_eq_of_size_eq (size_separateNamesIn u scope) i
  have hown : Progress.CountsOwn (differs Decl.name) t.parent?
      (fun u _ => ∀ i, u.parent? i = t.parent? i) separateNamesIn :=
    { size_le := fun u scope => (size_separateNamesIn u scope).ge
      lt_size := fun hready howner => lt_size_of_parent? ((hready _).trans howner)
      same := fun hready _ howner => decl_separateNames_of_not_mem _ _ _ fun hmem =>
        howner ((hready _).symm.trans (mem_namedChildren_iff.1 hmem).1)
      ready_of := fun hready _ _ i => (hparents _ _ i).trans (hready i)
      changes_eq := fun {u scope} _ => changes_separateNames ((nodup_children u scope).filter _)
        (fun id hid => lt_size_of_parent? (mem_namedChildren_iff.1 hid).1)
        fun id hid => List.mem_map_of_mem hid }
  exact hown.changes_sweep (differs_self _) (t.nodup_walk.filter _) fun _ _ _ => rfl

/-! ## Promotions -/

/-- A promotion counts one, for the method it adds and for the function it hides. -/
lemma progress_promoteOne_cases (strip : Bool) (t : Tree) (id : Nat) :
    (t.promoteOne strip id).progress.Idle t ∨
      ∃ target method grown, t.insert (some target) method = .ok grown ∧
        (t.promoteOne strip id).progress.tree = grown.edit id .ignore ∧
        (t.promoteOne strip id).progress.changes = 1 := by
  rcases promoteOne_cases strip t id with
    ⟨-, htree, hresult⟩ | ⟨p, grown, -, hgrown, htree, hresult⟩
  · exact .inl ⟨htree, by rw [Outcome.progress, hresult]; rfl⟩
  · exact .inr ⟨p.target, p.method, grown, hgrown, htree, by rw [Outcome.progress, hresult]; rfl⟩

lemma size_promoteOne (strip : Bool) (t : Tree) (id : Nat) :
    (t.promoteOne strip id).progress.tree.size =
      t.size + (t.promoteOne strip id).progress.changes := by
  rcases progress_promoteOne_cases strip t id with hidle | ⟨_, _, grown, hgrown, htree, hone⟩
  · rw [hidle.1, hidle.2, Nat.add_zero]
  · rw [htree, hone, size_edit, size_of_insert hgrown]

lemma decl_promoteOne_of_ne (strip : Bool) {i : Nat} (hi : i < t.size) (hne : id ≠ i) :
    (t.promoteOne strip id).progress.tree.decl i = t.decl i := by
  rcases progress_promoteOne_cases strip t id with hidle | ⟨_, _, grown, hgrown, htree, -⟩
  · rw [hidle.1]
  · rw [htree, decl_edit_of_ne hne, decl_of_insert hgrown, if_neg (by omega)]

lemma changes_promoteOne (strip : Bool) (hid : id < t.size)
    (hopen : (t.decl id).ignored = false) :
    (t.promoteOne strip id).progress.changes =
      newlyIgnored (t.decl id) ((t.promoteOne strip id).progress.tree.decl id) := by
  rcases progress_promoteOne_cases strip t id with hidle | ⟨_, _, grown, hgrown, htree, hone⟩
  · rw [hidle.1, hidle.2, newlyIgnored_self]
  · have hlt : id < grown.size := by
      rw [size_of_insert hgrown]
      omega
    rw [htree, hone, decl_edit, if_pos ⟨rfl, hlt⟩, newlyIgnored, hopen]
    rfl

/-- The pass counts the functions it hides, and it adds as many methods. -/
lemma result_promoteFunctions (t : Tree) (strip : Bool) :
    (t.promoteFunctions strip).result =
        .ok (t.tally newlyIgnored (t.promoteFunctions strip).tree) ∧
      (t.promoteFunctions strip).tree.size =
        t.size + t.tally newlyIgnored (t.promoteFunctions strip).tree := by
  have hopen : ∀ id ∈ t.walk.filter t.isFreeFunction, (t.decl id).ignored = false := by
    intro id hid
    have hfree := (List.mem_filter.1 hid).2
    simp only [isFreeFunction, Bool.and_eq_true, Bool.not_eq_true'] at hfree
    exact hfree.1.2
  have hle (t : Tree) (id : Nat) : t.size ≤ (t.promoteOne strip id).progress.tree.size := by
    rw [size_promoteOne]
    omega
  have hchanges := Progress.changes_sweep_of_own (Q := fun d => d.ignored = false)
    newlyIgnored_self hle (decl_promoteOne_of_ne strip) (changes_promoteOne strip)
    (t.nodup_walk.filter t.isFreeFunction) (lt_size_of_mem_walk_filter _) hopen
  have hsize := Progress.size_sweep_eq_add (size_promoteOne strip)
    (t.walk.filter t.isFreeFunction) t
  rw [promoteFunctions_eq, Outcome.tree_ofProgress, ← hchanges]
  exact ⟨rfl, hsize⟩

end Tree

/-! ## All passes -/

namespace Pass

/-- What a pass does to a declaration, as the number of changes it counts for it. -/
def effectOn : Pass → Decl → Decl → Nat
  | .promoteFunctions _ => newlyIgnored
  | .separateNames => differs Decl.name
  | .classifyEnums => differs Decl.flags?
  | .inheritDefaults => fun a b => gainedDefaults a.defaultValues b.defaultValues
  | .dropDefaults => fun a b => lostDefaults a.defaultValues b.defaultValues
  | .publishNestedTypes => differs Decl.access
  | .leaveHandlesToHand => differs Decl.isManual

/-- A pass counts what it has done to the declarations there were. -/
theorem result_run (pass : Pass) (t : Tree) :
    (pass.run t).result = .ok (t.tally pass.effectOn (pass.run t).tree) := by
  cases pass with
  | promoteFunctions strip => exact (Tree.result_promoteFunctions t strip).1
  | separateNames => exact congrArg _ (Tree.changes_separateAllNames t)
  | classifyEnums => exact congrArg _ (Tree.changes_classifyEnums_eq_tally t)
  | inheritDefaults => exact congrArg _ (Tree.changes_inheritDefaults t)
  | dropDefaults => exact congrArg _ (Tree.changes_dropDefaults t)
  | publishNestedTypes => exact congrArg _ (Tree.changes_publishRounds t [])
  | leaveHandlesToHand => exact congrArg _ (Tree.changes_leaveHandlesToHand t)

end Pass

end Bindery
