import Bindery.Proofs.Pass.DefaultChanges
import Bindery.Proofs.Pass.Overrides

/-!
# Runs of the two passes over default values

One pass adds default values, the other one drops some.  They do not work against each other
(`defaults_come_to_rest`):

* what is dropped stands in front of the longest run of default values at the end
  (`exists_isTrailingRun`, `decl_dropDefaults`);
* what has just been added stands in front of default values only, so it is not dropped
  (`Completion.all_drop`);
* each pass leaves the other one with nothing new to do, so once both have been run nothing changes
  any more, whatever the order and however often they are run (`idle_runInOrder_defaults`).
-/

namespace Bindery

/-! ## The default values that are kept -/

/-- From a position on all parameters have a default value, and from no earlier one. -/
structure IsTrailingRun (values : List (Option String)) (start : Nat) : Prop where
  start_le : start ≤ values.length
  all_isSome : (values.drop start).all (·.isSome) = true
  longest : ∀ k < start, (values.drop k).all (·.isSome) = false

/-- The default values kept are those of the longest run at the end. -/
theorem exists_isTrailingRun (values : List (Option String)) :
    ∃ start, IsTrailingRun values start ∧
      trailingDefaults values = List.replicate start none ++ values.drop start := by
  induction values with
  | nil => exact ⟨0, ⟨Nat.le_refl 0, rfl, fun k hk => absurd hk (Nat.not_lt_zero k)⟩, rfl⟩
  | cons value rest ih =>
    obtain ⟨start, hrun, hrest⟩ := ih
    by_cases hall : (value :: rest).all (·.isSome) = true
    · refine ⟨0, ⟨Nat.zero_le _, hall, fun k hk => absurd hk (Nat.not_lt_zero k)⟩, ?_⟩
      exact trailingDefaults_of_all hall
    · rw [Bool.not_eq_true] at hall
      refine ⟨start + 1, ⟨Nat.succ_le_succ hrun.start_le, hrun.all_isSome, fun k hk => ?_⟩, ?_⟩
      · cases k with
        | zero => exact hall
        | succ k => exact hrun.longest k (Nat.lt_of_succ_lt_succ hk)
      · -- a value in front of usable ones is kept, so here there is none
        have hfirst : (if rest.all (·.isSome) then value else none) = none := by
          rw [List.all_cons, Bool.and_eq_false_iff] at hall
          rcases hall with hvalue | hgap
          · rw [Option.isSome_eq_false_iff, Option.isNone_iff_eq_none] at hvalue
            rw [hvalue, ite_self]
          · rw [if_neg (by simp [hgap])]
        rw [trailingDefaults, hfirst, hrest, List.replicate_succ]
        rfl

/-- A default value that has been added has default values only behind it. -/
theorem Completion.all_drop {before after : List (Option String)} (h : Completion before after)
    {i : Nat} {value : String} (hbefore : before[i]?.join = none)
    (hafter : after[i]?.join = some value) : (after.drop i).all (·.isSome) = true := by
  induction h generalizing i with
  | nil => simp at hafter
  | keep old _ ih =>
    cases i with
    | zero =>
      simp only [List.getElem?_cons_zero, Option.join_some] at hbefore hafter
      rw [hbefore] at hafter
      exact absurd hafter (by simp)
    | succ i => exact ih hbefore hafter
  | add new hall _ ih =>
    cases i with
    | zero => simpa using hall
    | succ i => exact ih hbefore hafter

/-- A default value is not dropped from among default values. -/
lemma Trimming.getElem?_eq {before after : List (Option String)} (h : Trimming before after)
    {i : Nat} (hall : (before.drop i).all (·.isSome) = true) : after[i]? = before[i]? := by
  induction h generalizing i with
  | nil => rfl
  | keep old _ ih =>
    cases i with
    | zero => rfl
    | succ i => exact ih hall
  | drop old hgap _ ih =>
    cases i with
    | zero => simp [hgap] at hall
    | succ i => exact ih hall

/-! ## What the passes do to a declaration -/

namespace Tree

variable {t : Tree}

lemma decl_dropDefaultsOf (t : Tree) (id : Nat) : (t.dropDefaultsOf id).tree.decl id =
    (Edit.setDefaults (trailingDefaults (t.decl id).defaultValues)).apply (t.decl id) := by
  rcases dropDefaultsOf_cases t id with ⟨hnone, hsame⟩ | ⟨s, hs, htree, -⟩
  · rw [hsame, apply_setDefaults_of_none hnone]
    rfl
  · rw [htree, decl_edit, if_pos ⟨rfl, lt_size_of_signature? hs⟩,
      Decl.defaultValues_of_signature? hs]

/-- The pass leaves a function or method that is not kept out with the default values at the end,
and all else alone. -/
theorem decl_dropDefaults (t : Tree) {id : Nat} (hid : id < t.size) :
    t.dropDefaults.tree.decl id =
      if (t.decl id).kind.isCallable && !(t.decl id).ignored then
        (Edit.setDefaults (trailingDefaults (t.decl id).defaultValues)).apply (t.decl id)
      else t.decl id := by
  rw [dropDefaults, Progress.decl_sweep (I := fun _ => True)
    (fun id => (Edit.setDefaults (trailingDefaults (t.decl id).defaultValues)).apply (t.decl id))
    (fun u id _ hsame => by rw [decl_dropDefaultsOf, hsame]) (fun _ _ _ _ => trivial)
    (fun u {_ _} => givesDefaults_dropDefaultsOf.decl_of_ne) (t.nodup_walk.filter _) trivial]
  simp only [List.mem_filter, mem_walk_iff, hid, true_and]

/-- The pass leaves the default values that can be used. -/
lemma defaultValues_dropDefaults {id : Nat} (hid : id < t.size) :
    (t.dropDefaults.tree.decl id).defaultValues =
      if (t.decl id).kind.isCallable && !(t.decl id).ignored then
        trailingDefaults (t.decl id).defaultValues
      else (t.decl id).defaultValues := by
  rw [decl_dropDefaults t hid]
  split
  · have hedit := decl_edit t id (.setDefaults (trailingDefaults (t.decl id).defaultValues)) id
    rw [if_pos ⟨rfl, hid⟩] at hedit
    cases hs : (t.decl id).signature? with
    | none =>
      rw [apply_setDefaults_of_none hs, Decl.defaultValues, Decl.defaults?, hs]
      rfl
    | some s =>
      rw [← hedit]
      refine defaultValues_setDefaults hs ?_
      rw [length_trailingDefaults, Decl.defaultValues_of_signature? hs, Signature.length_defaults]
  · rfl

/-- What has just been inherited is not dropped. -/
lemma defaultValues_dropDefaults_inheritDefaults (t : Tree) {id i : Nat} {value : String}
    (hbefore : (t.decl id).defaultValues[i]?.join = none)
    (hafter : (t.inheritDefaults.tree.decl id).defaultValues[i]?.join = some value) :
    (t.inheritDefaults.tree.dropDefaults.tree.decl id).defaultValues[i]?.join = some value := by
  have hall := (completion_inheritDefaults t id).all_drop hbefore hafter
  rw [(trimming_dropDefaults t.inheritDefaults.tree id).getElem?_eq hall, hafter]

end Tree

/-! ## Any number of runs -/

namespace Pass

/-- Adding and dropping default values do not disturb each other. -/
lemma not_disturbs_defaults {pass : Pass} (h : pass = .inheritDefaults ∨ pass = .dropDefaults)
    (kind : PassKind) : ¬ Disturbs pass.kind kind := by
  rcases h with rfl | rfl <;> simp [Disturbs, Pass.kind]

/-- What a pass of a list has settled is settled after the list. -/
lemma settled_of_mem {passes : List Pass}
    (hpasses : ∀ pass ∈ passes, pass = .inheritDefaults ∨ pass = .dropDefaults) {pass : Pass}
    (hpass : pass ∈ passes) (t : Tree) : Settled pass.kind (runInOrder passes t).tree := by
  obtain ⟨front, rest, rfl⟩ := List.append_of_mem hpass
  rw [tree_runInOrder_append, (runInOrder_cons pass rest _).1]
  refine (settled_run pass _).runInOrder fun later hlater => ?_
  exact not_disturbs_defaults (hpasses later (by simp [hlater])) _

/-- Once both passes have been run, in either order, neither has anything to do any more. -/
theorem idle_runInOrder_defaults {front rest : List Pass}
    (hpasses : ∀ pass ∈ front ++ rest, pass = .inheritDefaults ∨ pass = .dropDefaults)
    (hinherit : .inheritDefaults ∈ front) (hdrop : .dropDefaults ∈ front) (t : Tree) :
    (runInOrder rest (runInOrder front t).tree).Idle (runInOrder front t).tree := by
  obtain ⟨hfront, hrest⟩ := List.forall_mem_append.1 hpasses
  refine runInOrder_idle fun pass hpass => Settled.idle ?_
  rcases hrest pass hpass with rfl | rfl
  · exact settled_of_mem hfront hinherit t
  · exact settled_of_mem hfront hdrop t

end Pass

namespace Tree

/-- Dropping keeps exactly the default values of the longest run at the end, and changes nothing but
default values of functions and methods that are not kept out; it drops nothing that has just been
inherited; and once both passes have been run, in either order, any further runs of the two change
nothing. -/
theorem defaults_come_to_rest (t : Tree) :
    (t.dropDefaults.tree.size = t.size ∧ ∀ id < t.size,
      t.dropDefaults.tree.parent? id = t.parent? id ∧
      ∃ start, IsTrailingRun (t.decl id).defaultValues start ∧
        t.dropDefaults.tree.decl id =
          if (t.decl id).kind.isCallable && !(t.decl id).ignored then
            (Edit.setDefaults (List.replicate start none ++
              (t.decl id).defaultValues.drop start)).apply (t.decl id)
          else t.decl id) ∧
    (∀ (id i : Nat) (value : String), (t.decl id).defaultValues[i]?.join = none →
      (t.inheritDefaults.tree.decl id).defaultValues[i]?.join = some value →
      (t.inheritDefaults.tree.dropDefaults.tree.decl id).defaultValues[i]?.join = some value) ∧
    ∀ front rest : List Pass,
      (∀ pass ∈ front ++ rest, pass = .inheritDefaults ∨ pass = .dropDefaults) →
      .inheritDefaults ∈ front → .dropDefaults ∈ front →
      (Pass.runInOrder rest (Pass.runInOrder front t).tree).Idle (Pass.runInOrder front t).tree := by
  refine ⟨⟨size_dropDefaults t, fun id hid => ⟨(develops_dropDefaults t).parent?_eq hid, ?_⟩⟩,
    fun id i value => t.defaultValues_dropDefaults_inheritDefaults,
    fun front rest hpasses hinherit hdrop =>
      Pass.idle_runInOrder_defaults hpasses hinherit hdrop t⟩
  obtain ⟨start, hrun, htrailing⟩ := exists_isTrailingRun (t.decl id).defaultValues
  exact ⟨start, hrun, by rw [decl_dropDefaults t hid, htrailing]⟩

/-- A method that has come too late takes its default value over after all, and keeps it. -/
theorem defaults_come_to_rest_promotedTree :
    (Pass.promotedTree.decl 5).defaultValues[0]?.join = none ∧
      (Pass.promotedTree.inheritDefaults.tree.decl 5).defaultValues[0]?.join = some "5" ∧
      (Pass.promotedTree.inheritDefaults.tree.dropDefaults.tree.decl 5).defaultValues[0]?.join =
        some "5" ∧
      (Pass.runInOrder [.inheritDefaults, .dropDefaults]
        (Pass.runInOrder [.dropDefaults, .inheritDefaults] Pass.promotedTree).tree).Idle
        (Pass.runInOrder [.dropDefaults, .inheritDefaults] Pass.promotedTree).tree := by
  obtain ⟨-, hkept, hrest⟩ := defaults_come_to_rest Pass.promotedTree
  have hbefore : (Pass.promotedTree.decl 5).defaultValues[0]?.join = none := by decide +kernel
  have hafter : (Pass.promotedTree.inheritDefaults.tree.decl 5).defaultValues[0]?.join =
      some "5" := by
    rw [inheritDefaults_promotedTree]
    decide +kernel
  exact ⟨hbefore, hafter, hkept 5 0 "5" hbefore hafter,
    hrest [.dropDefaults, .inheritDefaults] [.inheritDefaults, .dropDefaults] (by decide)
      (by decide) (by decide)⟩

end Tree

end Bindery
