import Bindery.Pipeline
import Bindery.Proofs.Naming.Renumbering
import Bindery.Proofs.Pass.Renumbering

/-!
# A checkpoint makes no difference

A tree can be dumped at any point and work go on with the tree that is loaded from the dump.  That
tree may hold its declarations in another order, but nothing that is done to a tree between reading
and emitting it depends on the order: the stages agree on renumbered trees (`Treatment.agrees`).  So
trees that are dumped alike stay so, whatever is done to both (`Tree.exists_worked`), and the
checkpoints of a work in progress can be left out (`Tree.checkpoint_transparent`).
-/

namespace Bindery

open Equiv (Perm)
open Bindery.Tree (Renumbered)

variable {σ : Perm Nat} {t u : Tree}

/-! ## The stages of a configuration -/

namespace Config

lemma agrees_prepare (config : Config) (h : Renumbered σ t u) :
    Outcome.Agrees σ (config.prepare t) (config.prepare u) := by
  unfold prepare
  cases config.validate with
  | error e => exact Outcome.agrees_fail h e
  | ok _ =>
    have hsuppressed := Tree.agrees_suppress h config.suppressed
    refine (hsuppressed.andThen ?_).mapError _
    exact Tree.agrees_normaliseNames hsuppressed.trees config.namePrefix config.renames
      config.capitalised

lemma agrees_process (config : Config) (h : Renumbered σ t u) :
    Outcome.Agrees σ (config.process t) (config.process u) := by
  have hprepared := config.agrees_prepare h
  exact hprepared.andThen ((Tree.agrees_applyPasses hprepared.trees config.passes).mapError _)

end Config

/-! ## Any sequence of them -/

/-- What can be done to a tree between reading and emitting it: one of the stages, or all of them
as a configuration demands. -/
inductive Treatment where
  | suppress (selectors : List Selector)
  | normaliseNames (rule : NamePrefix) (renames : List Renaming) (targets : List CapitalTarget)
  | applyPasses (passes : List Pass)
  | process (config : Config)

namespace Treatment

/-- Treats a tree. -/
def on (t : Tree) : Treatment → Outcome BindingError
  | .suppress selectors => (t.suppress selectors).mapError .passes
  | .normaliseNames rule renames targets =>
    (t.normaliseNames rule renames targets).mapError .passes
  | .applyPasses passes => (t.applyPasses passes).mapError .passes
  | .process config => config.process t

theorem agrees (treatment : Treatment) (h : Renumbered σ t u) :
    Outcome.Agrees σ (treatment.on t) (treatment.on u) := by
  cases treatment with
  | suppress selectors => exact (Tree.agrees_suppress h selectors).mapError _
  | normaliseNames rule renames targets =>
    exact (Tree.agrees_normaliseNames h rule renames targets).mapError _
  | applyPasses passes => exact (Tree.agrees_applyPasses h passes).mapError _
  | process config => exact config.agrees_process h

/-- A treatment does the same to trees that are dumped alike. -/
lemma on_of_toNodes (treatment : Treatment) (h : u.toNodes = t.toNodes) :
    (treatment.on u).result = (treatment.on t).result ∧
      (treatment.on u).tree.toNodes = (treatment.on t).tree.toNodes := by
  obtain ⟨σ, hrenumbered⟩ := Tree.toNodes_eq_iff.1 h
  have hagrees := treatment.agrees hrenumbered
  exact ⟨hagrees.result_eq, hagrees.trees.toNodes_eq⟩

end Treatment

/-! ## Checkpoints between them -/

/-- A treatment, or a checkpoint: the tree is dumped, and work goes on with what is loaded from the
dump. -/
inductive WorkStep where
  | treat (treatment : Treatment)
  | checkpoint

namespace WorkStep

/-- What a step does besides dumping and loading. -/
def treatment? : WorkStep → Option Treatment
  | .treat treatment => some treatment
  | .checkpoint => none

/-- The tree after a step.  A treatment counts as far as it got. -/
def on (t : Tree) : WorkStep → Except TreeError Tree
  | .treat treatment => .ok (treatment.on t).tree
  | .checkpoint => (Tree.ofNodes t.toNodes []).value

end WorkStep

namespace Tree

/-- The tree after a list of treatments. -/
def treated (t : Tree) (treatments : List Treatment) : Tree :=
  treatments.foldl (fun u treatment => (treatment.on u).tree) t

/-- The tree after a list of steps, if all that was dumped could be loaded. -/
def worked (t : Tree) (steps : List WorkStep) : Except TreeError Tree :=
  steps.foldlM WorkStep.on t

/-- Trees that are dumped alike stay so, whatever is done to both, and wherever the work on one of
them goes through a checkpoint. -/
theorem exists_worked (h : u.toNodes = t.toNodes) (steps : List WorkStep) :
    ∃ v, u.worked steps = .ok v ∧
      v.toNodes = (t.treated (steps.filterMap WorkStep.treatment?)).toNodes := by
  induction steps generalizing t u with
  | nil => exact ⟨u, rfl, h⟩
  | cons step steps ih =>
    cases step with
    | treat treatment => exact ih (treatment.on_of_toNodes h).2
    | checkpoint =>
      obtain ⟨r, hload, hnodes⟩ := u.exists_ofNodes
      obtain ⟨v, hv, hvnodes⟩ := ih (hnodes.trans h)
      have hstep : WorkStep.on u .checkpoint = .ok r := by rw [WorkStep.on, hload]
      exact ⟨v, by rw [worked, List.foldlM_cons, hstep]; exact hv, hvnodes⟩

/-- Every checkpoint of a work in progress can be loaded, and leaves no trace: the next treatment
has the same result as without any checkpoint, be it a failure, and leaves a tree that is dumped
alike.  With one checkpoint, at the front, this compares a tree with what is loaded from its
dump. -/
theorem checkpoint_transparent (t : Tree) (steps : List WorkStep) :
    ∃ u, t.worked steps = .ok u ∧ ∀ next : Treatment,
      (next.on u).result =
        (next.on (t.treated (steps.filterMap WorkStep.treatment?))).result ∧
      (next.on u).tree.toNodes =
        (next.on (t.treated (steps.filterMap WorkStep.treatment?))).tree.toNodes := by
  obtain ⟨u, hu, hnodes⟩ := exists_worked (Eq.refl t.toNodes) steps
  exact ⟨u, hu, fun next => next.on_of_toNodes hnodes⟩

end Tree

end Bindery
