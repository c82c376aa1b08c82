import Bindery.Proofs.Pass.InheritedDefaults
import Bindery.Proofs.Tally

/-!
# Default values gained and lost

One pass completes the default values of methods, another one trims those of functions and methods.
Both look at lists of default values from the end: a value is added only where every later parameter
has one then (`Completion`), and dropped only where a later one has none (`Trimming`).  So what one
of them does to a list the other one does not undo (`Completion.eq_of_trimming`).

The passes count the places at which the lists before and after differ.  These are the parameters
that gained a default value, or those that lost one (`changes_inheritDefaults`,
`changes_dropDefaults`).
-/

namespace Bindery

/-! ## Lists of default values -/

/-- Default values before and after some were added, each in front of default values only. -/
inductive Completion : List (Option String) → List (Option String) → Prop where
  | nil : Completion [] []
  | keep (value : Option String) {before after : List (Option String)}
      (h : Completion before after) : Completion (value :: before) (value :: after)
  | add (value : String) {before after : List (Option String)}
      (hall : after.all (·.isSome) = true) (h : Completion before after) :
      Completion (none :: before) (some value :: after)

/-- Default values before and after some were dropped, each in front of a parameter that had
none. -/
inductive Trimming : List (Option String) → List (Option String) → Prop where
  | nil : Trimming [] []
  | keep (value : Option String) {before after : List (Option String)}
      (h : Trimming before after) : Trimming (value :: before) (value :: after)
  | drop (value : String) {before after : List (Option String)}
      (hgap : before.all (·.isSome) = false) (h : Trimming before after) :
      Trimming (some value :: before) (none :: after)

/-- How many parameters gained a default value. -/
def gainedDefaults (before after : List (Option String)) : Nat :=
  (before.zip after).countP fun (old, new) => old.isNone && new.isSome

/-- How many parameters lost their default value. -/
def lostDefaults (before after : List (Option String)) : Nat :=
  (before.zip after).countP fun (old, new) => old.isSome && new.isNone

namespace Completion

variable {before after last : List (Option String)}

lemma refl (values : List (Option String)) : Completion values values := by
  induction values with
  | nil => exact .nil
  | cons value values ih => exact .keep value ih

lemma all_isSome (h : Completion before after) (hall : before.all (·.isSome) = true) :
    after.all (·.isSome) = true := by
  induction h with
  | nil => rfl
  | keep value _ ih =>
    rw [List.all_cons, Bool.and_eq_true] at hall ⊢
    exact ⟨hall.1, ih hall.2⟩
  | add value _ _ _ => simp at hall

lemma trans (h : Completion before after) (hlast : Completion after last) :
    Completion before last := by
  induction h generalizing last with
  | nil => exact hlast
  | keep value _ ih =>
    cases hlast with
    | keep _ hrest => exact .keep value (ih hrest)
    | add new hall hrest => exact .add new hall (ih hrest)
  | add value hall _ ih =>
    cases hlast with
    | keep _ hrest => exact .add value (hrest.all_isSome hall) (ih hrest)

/-- While values are only added, every place that differs has gained one. -/
lemma differences_eq (h : Completion before after) :
    differences before after = gainedDefaults before after := by
  unfold differences gainedDefaults
  induction h with
  | nil => rfl
  | keep value _ ih => cases value <;> simpa using ih
  | add value _ _ ih => simpa using ih

/-- A default value that is there stays. -/
lemma isSome_of_isSome (h : Completion before after) {i : Nat}
    (hbefore : before[i]?.join.isSome = true) : after[i]?.join.isSome = true := by
  induction h generalizing i with
  | nil => exact hbefore
  | keep value _ ih =>
    cases i with
    | zero => exact hbefore
    | succ i => exact ih hbefore
  | add value _ _ ih =>
    cases i with
    | zero => rfl
    | succ i => exact ih hbefore

/-- What has been added is not dropped again. -/
theorem eq_of_trimming (h : Completion before after) (htrim : Trimming after before) :
    after = before := by
  induction h with
  | nil => rfl
  | keep value _ ih =>
    cases htrim with
    | keep _ hrest => rw [ih hrest]
  | add value hall _ _ =>
    cases htrim with
    | drop _ hgap _ => exact absurd hall (by simp [hgap])

end Completion

namespace Trimming

variable {before after last : List (Option String)}

lemma refl (values : List (Option String)) : Trimming values values := by
  induction values with
  | nil => exact .nil
  | cons value values ih => exact .keep value ih

lemma eq_of_all (h : Trimming before after) (hall : before.all (·.isSome) = true) :
    after = before := by
  induction h with
  | nil => rfl
  | keep value _ ih =>
    rw [List.all_cons, Bool.and_eq_true] at hall
    rw [ih hall.2]
  | drop value hgap _ _ => simp [hgap] at hall

lemma trans (h : Trimming before after) (hlast : Trimming after last) :
    Trimming before last := by
  induction h generalizing last with
  | nil => exact hlast
  | @keep value before after hrest ih =>
    cases hlast with
    | keep _ hlast => exact .keep value (ih hlast)
    | drop old hgap hlast =>
      refine .drop old ?_ (ih hlast)
      by_contra hall
      rw [Bool.not_eq_false] at hall
      rw [hrest.eq_of_all hall, hall] at hgap
      exact absurd hgap (by simp)
  | drop value hgap _ ih =>
    cases hlast with
    | keep _ hlast => exact .drop value hgap (ih hlast)

/-- While values are only taken away, every place that differs has lost one. -/
lemma differences_eq (h : Trimming before after) :
    differences before after = lostDefaults before after := by
  unfold differences lostDefaults
  induction h with
  | nil => rfl
  | keep value _ ih => cases value <;> simpa using ih
  | drop value _ _ ih => simpa using ih

end Trimming

lemma completion_completedDefaults (own : List (Option String))
    (inherited : Nat → Option String) : Completion own (completedDefaults own inherited) := by
  induction own generalizing inherited with
  | nil => exact .nil
  | cons value own ih =>
    rw [completedDefaults_cons]
    cases value with
    | some value => exact .keep _ (ih _)
    | none =>
      rw [Option.none_or]
      split
      · next hall =>
        cases inherited 0 with
        | none => exact .keep _ (ih _)
        | some value => exact .add value (all_completedDefaults hall) (ih _)
      · exact .keep _ (ih _)

lemma trimming_trailingDefaults (values : List (Option String)) :
    Trimming values (trailingDefaults values) := by
  induction values with
  | nil => exact .nil
  | cons value rest ih =>
    rw [trailingDefaults]
    split
    · exact .keep _ ih
    · next hgap =>
      cases value with
      | none => exact .keep _ ih
      | some value => exact .drop value (by simpa using hgap) ih

/-- The default values of the arguments of a function or method; other declarations have none. -/
def Decl.defaultValues (d : Decl) : List (Option String) := d.defaults?.getD []

lemma Decl.defaultValues_of_signature? {d : Decl} {s : Signature} (h : d.signature? = some s) :
    d.defaultValues = s.defaults := by
  rw [defaultValues, defaults?, h, Option.map_some, Option.getD_some]

lemma Tree.defaultValues_setDefaults {t : Tree} {id : Nat} {s : Signature}
    {values : List (Option String)} (hs : (t.decl id).signature? = some s)
    (hlength : values.length = s.arguments.length) :
    ((t.edit id (.setDefaults values)).decl id).defaultValues = values := by
  rw [Decl.defaultValues_of_signature? (signature?_setDefaults hs),
    Signature.defaults_withDefaults hlength]

/-! ## Giving default values -/

namespace Progress

/-- A step gives a function or method default values that are related to those it has, and counts
the places at which they differ. -/
def GivesDefaults (Rel : List (Option String) → List (Option String) → Prop)
    (step : Tree → Nat → Progress) : Prop :=
  ∀ t id, ((t.decl id).signature? = none ∧ step t id = .unchanged t) ∨
    ∃ s values, (t.decl id).signature? = some s ∧ Rel s.defaults values ∧
      values.length = s.arguments.length ∧ (step t id).tree = t.edit id (.setDefaults values) ∧
      (step t id).changes = differences s.defaults values

namespace GivesDefaults

variable {Rel : List (Option String) → List (Option String) → Prop}
variable {step : Tree → Nat → Progress} (h : GivesDefaults Rel step) {t : Tree} {id i : Nat}

include h

lemma size_eq (t : Tree) (id : Nat) : (step t id).tree.size = t.size := by
  rcases h t id with ⟨-, hsame⟩ | ⟨s, values, -, -, -, htree, -⟩
  · rw [hsame]
    rfl
  · rw [htree, Tree.size_edit]

lemma decl_of_ne (hne : id ≠ i) : (step t id).tree.decl i = t.decl i := by
  rcases h t id with ⟨-, hsame⟩ | ⟨s, values, -, -, -, htree, -⟩
  · rw [hsame]
    rfl
  · rw [htree, Tree.decl_edit_of_ne hne]

/-- What is counted for one declaration is the number of its places that differ. -/
lemma changes_eq (t : Tree) (id : Nat) : (step t id).changes =
    differences (t.decl id).defaultValues ((step t id).tree.decl id).defaultValues := by
  rcases h t id with ⟨-, hsame⟩ | ⟨s, values, hs, -, hlength, htree, hchanges⟩
  · rw [hsame]
    exact (differences_self _).symm
  · rw [htree, hchanges, Decl.defaultValues_of_signature? hs,
      Tree.defaultValues_setDefaults hs hlength]

/-- A step that counts no change makes none. -/
lemma tree_of_changes (hzero : (step t id).changes = 0) : (step t id).tree = t := by
  rcases h t id with ⟨-, hsame⟩ | ⟨s, values, hs, -, hlength, htree, hchanges⟩
  · rw [hsame]
    rfl
  · have hvalues : s.defaults = values := by
      refine eq_of_differences ?_ (hchanges.symm.trans hzero)
      rw [hlength, Signature.length_defaults]
    rw [htree, ← hvalues]
    exact Tree.edit_setDefaults_self hs

variable (hrefl : ∀ values, Rel values values)

include hrefl

lemma related (t : Tree) (id i : Nat) :
    Rel (t.decl i).defaultValues ((step t id).tree.decl i).defaultValues := by
  by_cases hi : id = i
  · subst hi
    rcases h t id with ⟨-, hsame⟩ | ⟨s, values, hs, hrel, hlength, htree, -⟩
    · rw [hsame]
      exact hrefl _
    · rwa [htree, Decl.defaultValues_of_signature? hs, Tree.defaultValues_setDefaults hs hlength]
  · rw [h.decl_of_ne hi]
    exact hrefl _

/-- A relation that holds for every step, and can be chained, holds for the sweep. -/
lemma related_sweep (htrans : ∀ {a b c}, Rel a b → Rel b c → Rel a c) (ids : List Nat) (t : Tree)
    (i : Nat) : Rel (t.decl i).defaultValues ((sweep step ids t).tree.decl i).defaultValues :=
  sweep_invariant (I := fun u => Rel (t.decl i).defaultValues (u.decl i).defaultValues)
    (fun id _ u hu => htrans hu (h.related hrefl u id i)) (hrefl _)

/-- A sweep counts the parameters that gained a default value, or lost it. -/
lemma changes_sweep {count : List (Option String) → List (Option String) → Nat}
    (hcount : ∀ {a b}, Rel a b → differences a b = count a b) {ids : List Nat} (hids : ids.Nodup)
    (hlt : ∀ id ∈ ids, id < t.size) : (sweep step ids t).changes =
      t.tally (fun a b => count a.defaultValues b.defaultValues) (sweep step ids t).tree := by
  have hself (d : Decl) : count d.defaultValues d.defaultValues = 0 := by
    rw [← hcount (hrefl _), differences_self]
  refine changes_sweep_of_own (Q := fun _ => True) hself (fun t id => (h.size_eq t id).ge)
    (fun _ hne => h.decl_of_ne hne) ?_ hids hlt fun _ _ => trivial
  intro t id _ _
  rw [h.changes_eq, hcount (h.related hrefl t id id)]

end GivesDefaults

end Progress

namespace Tree

variable {t : Tree}

/-! ## The passes -/

lemma givesDefaults_inheritDefaultsOf :
    Progress.GivesDefaults Completion Tree.inheritDefaultsOf := by
  intro t id
  rcases inheritDefaultsOf_cases t id with h | ⟨s, hs, htree, hchanges⟩
  · exact .inl h
  · refine .inr ⟨s, _, hs, ?_, length_defaultsWithInherited t id s, htree, hchanges⟩
    rw [defaultsWithInherited_eq]
    exact completion_completedDefaults _ _

lemma givesDefaults_dropDefaultsOf : Progress.GivesDefaults Trimming Tree.dropDefaultsOf := by
  intro t id
  rcases dropDefaultsOf_cases t id with h | ⟨s, hs, htree, hchanges⟩
  · exact .inl h
  · refine .inr ⟨s, _, hs, trimming_trailingDefaults _, ?_, htree, hchanges⟩
    rw [length_trailingDefaults, Signature.length_defaults]

lemma lt_size_of_mem_walk_filter (p : Nat → Bool) : ∀ id ∈ t.walk.filter p, id < t.size :=
  fun _ h => mem_walk_iff.1 (List.mem_filter.1 h).1

/-- The pass counts the parameters that gain a default value. -/
theorem changes_inheritDefaults (t : Tree) : t.inheritDefaults.changes =
    t.tally (fun a b => gainedDefaults a.defaultValues b.defaultValues) t.inheritDefaults.tree :=
  givesDefaults_inheritDefaultsOf.changes_sweep Completion.refl Completion.differences_eq
    (t.nodup_walk.filter _) (lt_size_of_mem_walk_filter _)

lemma completion_inheritDefaults (t : Tree) (id : Nat) :
    Completion (t.decl id).defaultValues (t.inheritDefaults.tree.decl id).defaultValues :=
  givesDefaults_inheritDefaultsOf.related_sweep Completion.refl Completion.trans _ t id

/-- The pass counts the parameters that lose their default value. -/
theorem changes_dropDefaults (t : Tree) : t.dropDefaults.changes =
    t.tally (fun a b => lostDefaults a.defaultValues b.defaultValues) t.dropDefaults.tree :=
  givesDefaults_dropDefaultsOf.changes_sweep Trimming.refl Trimming.differences_eq
    (t.nodup_walk.filter _) (lt_size_of_mem_walk_filter _)

lemma trimming_dropDefaults (t : Tree) (id : Nat) :
    Trimming (t.decl id).defaultValues (t.dropDefaults.tree.decl id).defaultValues :=
  givesDefaults_dropDefaultsOf.related_sweep Trimming.refl Trimming.trans _ t id

end Tree

end Bindery
