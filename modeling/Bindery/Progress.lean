import Bindery.Log
import Bindery.Tree.Walk

/-!
# Progress on a tree

What is left behind by something that changes a tree: the tree, the number of changes, and the
messages.  `Progress` is that for a change that cannot fail; `Outcome` is that for one that can, and
keeps the tree as far as it got.

`Progress.sweep` runs a step over a list of declarations, each on the tree the one before it left.
-/

namespace Bindery

/-- A changed tree, the number of changes, and what was logged. -/
structure Progress where
  tree : Tree
  changes : Nat
  log : Log

namespace Progress

/-- No change. -/
def unchanged (t : Tree) : Progress := ⟨t, 0, []⟩

/-- One change, the edit of a declaration, with messages about it. -/
def edited (t : Tree) (id : Nat) (edit : Edit) (log : Log) : Progress := ⟨t.edit id edit, 1, log⟩

/-- Goes on from the tree that has been reached. -/
def andThen (p : Progress) (next : Tree → Progress) : Progress :=
  let q := next p.tree
  ⟨q.tree, p.changes + q.changes, p.log ++ q.log⟩

@[simp] theorem tree_andThen (p : Progress) (next : Tree → Progress) :
    (p.andThen next).tree = (next p.tree).tree := rfl

@[simp] theorem changes_andThen (p : Progress) (next : Tree → Progress) :
    (p.andThen next).changes = p.changes + (next p.tree).changes := rfl

@[simp] theorem log_andThen (p : Progress) (next : Tree → Progress) :
    (p.andThen next).log = p.log ++ (next p.tree).log := rfl

/-- Runs a step for each declaration of a list, in order. -/
def sweep (step : Tree → Nat → Progress) : (ids : List Nat) → Tree → Progress
  | [], t => unchanged t
  | id :: ids, t => (step t id).andThen (sweep step ids)

@[simp] theorem sweep_nil (step : Tree → Nat → Progress) (t : Tree) :
    sweep step [] t = unchanged t := rfl

@[simp] theorem sweep_cons (step : Tree → Nat → Progress) (id : Nat) (ids : List Nat) (t : Tree) :
    sweep step (id :: ids) t = (step t id).andThen (sweep step ids) := rfl

end Progress

/-- A tree as far as a change got, what was logged, and the number of changes or the reason why it
stopped. -/
structure Outcome (ε : Type) where
  tree : Tree
  log : Log
  result : Except ε Nat

namespace Outcome

variable {ε δ : Type}

/-- The outcome of a change that cannot fail. -/
def ofProgress (p : Progress) : Outcome ε := ⟨p.tree, p.log, .ok p.changes⟩

/-- No change. -/
def unchanged (t : Tree) : Outcome ε := ⟨t, [], .ok 0⟩

/-- A failure that leaves the tree as it is. -/
def fail (t : Tree) (e : ε) : Outcome ε := ⟨t, [], .error e⟩

/-- Goes on from the tree that has been reached, unless there was a failure. -/
def andThen (o : Outcome ε) (next : Tree → Outcome ε) : Outcome ε :=
  match o.result with
  | .error _ => o
  | .ok changes =>
    let p := next o.tree
    ⟨p.tree, o.log ++ p.log, p.result.map (changes + ·)⟩

/-- After a failure nothing more is done. -/
theorem andThen_of_error {o : Outcome ε} {e : ε} (h : o.result = .error e)
    (next : Tree → Outcome ε) : o.andThen next = o := by
  simp [andThen, h]

theorem andThen_of_ok {o : Outcome ε} {changes : Nat} (h : o.result = .ok changes)
    (next : Tree → Outcome ε) :
    o.andThen next =
      ⟨(next o.tree).tree, o.log ++ (next o.tree).log,
        (next o.tree).result.map (changes + ·)⟩ := by
  simp [andThen, h]

/-- Runs a step for each declaration of a list, in order, up to the first failure. -/
def sweep (step : Tree → Nat → Outcome ε) : (ids : List Nat) → Tree → Outcome ε
  | [], t => unchanged t
  | id :: ids, t => (step t id).andThen (sweep step ids)

/-- The same outcome with its error put into other words. -/
def mapError (f : ε → δ) (o : Outcome ε) : Outcome δ := ⟨o.tree, o.log, o.result.mapError f⟩

/-- Adds messages that depend on the number of changes, if there was no failure. -/
def logging (o : Outcome ε) (messages : Nat → Log) : Outcome ε :=
  match o.result with
  | .error _ => o
  | .ok changes => { o with log := o.log ++ messages changes }

end Outcome

end Bindery
