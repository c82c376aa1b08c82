import Bindery.Proofs.Pass.Run

/-!
# When a second run has nothing to do

Running a valid list of passes on its own output changes nothing, whatever the tree, exactly if the
list does not inherit default values before it promotes functions (`rerun_idle_iff`).
`checkOrder` does not ask for that order.

For lists in the other order there is one tree that always shows it, `overrideTree`: the function in
it becomes a method that overrides a virtual one with a default value, and in the first run this
comes too late.  All other passes have nothing to do on that tree, before and after the promotion,
so it does not matter which of them are in the list, or where.
-/

namespace Bindery

namespace Pass

/-! ## A method that arrives too late -/

/-- A class `B` with a virtual method that has a default value, a class `D` derived from it, and a
function that can become an override of the method in `D`. -/
def overrideTree : Tree :=
  Tree.empty.changed [
    .insert none (.new ⟨"tu:a.h"⟩ "a.h" .translationUnit),
    .insert (some 0) (.new ⟨"B"⟩ "B" (.classType true [])),
    .insert (some 1) (.new ⟨"m"⟩ "foo" (.method
      ⟨⟨.void, [⟨"x", .builtin "int", some "5"⟩], false⟩, true, false, none, none⟩)),
    .insert (some 0) (.new ⟨"D"⟩ "D" (.classType true [⟨"B"⟩])),
    .insert (some 0) (.new ⟨"f"⟩ "foo" (.function
      ⟨.void, [⟨"self", .pointerTo (.named "D" false (.declared ⟨"D"⟩)), none⟩,
        ⟨"x", .builtin "int", none⟩], false⟩))]

/-- `overrideTree` with the override in `D`. -/
def promotedTree : Tree := (overrideTree.promoteFunctions false).tree

lemma idle_of_entries {pass : Pass} {t : Tree} (htree : (pass.run t).tree.entries = t.entries)
    (hresult : (pass.run t).result = .ok 0) : (pass.run t).Idle t :=
  ⟨Tree.ext htree, hresult⟩

/-- The only method of `overrideTree` is that of `B`, which has no bases. -/
lemma inherited_overrideTree : overrideTree.Inherited := by
  intro id hkind _ s hs
  have hid : id < overrideTree.size := Tree.lt_size_of_kind (by rw [hkind]; decide)
  have honly : ∀ i < overrideTree.size, (overrideTree.decl i).kind = .method → i = 2 := by
    decide +kernel
  obtain rfl := honly id hid hkind
  have hdefaults : ∀ s ∈ (overrideTree.decl 2).signature?, s.defaults.all (·.isSome) = true := by
    decide +kernel
  rw [Tree.defaultsWithInherited_eq]
  exact completedDefaults_of_all (hdefaults s hs)

/-- Every pass but the promotion has nothing to do on `overrideTree`. -/
lemma idle_overrideTree {pass : Pass} (h : pass.kind ≠ .promoteFunctions) :
    (pass.run overrideTree).Idle overrideTree := by
  cases pass with
  | promoteFunctions strip => exact absurd rfl h
  | inheritDefaults => exact @Settled.idle .inheritDefaults _ inherited_overrideTree
  | _ => exact idle_of_entries (by decide +kernel) (by decide +kernel)

lemma run_promoteFunctions_overrideTree (strip : Bool) :
    ((Pass.promoteFunctions strip).run overrideTree).tree = promotedTree := by
  refine Tree.ext ?_
  cases strip with
  | false => rfl
  | true => decide +kernel

/-- Every pass but the inheritance has nothing to do once the function is promoted. -/
lemma idle_promotedTree {pass : Pass} (h : pass.kind ≠ .inheritDefaults) :
    (pass.run promotedTree).Idle promotedTree := by
  cases pass with
  | promoteFunctions strip =>
    exact Tree.Promoted.idle (Tree.promoted_promoteFunctions overrideTree false) strip
  | inheritDefaults => exact absurd rfl h
  | _ => exact idle_of_entries (by decide +kernel) (by decide +kernel)

/-- The new method overrides the virtual one. -/
lemma overridden_promotedTree : 2 ∈ promotedTree.overridden 5 := by
  have howner : promotedTree.parent? 5 = some 3 := by decide +kernel
  have hderived : ⟨"B"⟩ ∈ (promotedTree.decl 3).bases := by decide +kernel
  have hclass : promotedTree.class? ⟨"B"⟩ = some 1 := by decide +kernel
  exact Tree.mem_overridden_of_base (by decide +kernel) howner hderived hclass (by decide +kernel)
    (by decide +kernel) (by decide +kernel)

/-- The new method leaves out the default value of the virtual one. -/
lemma not_inherited_promotedTree : ¬ promotedTree.Inherited := by
  intro h
  have hdefaults : (promotedTree.decl 5).signature?.map (·.defaults) = some [none] := by
    decide +kernel
  obtain ⟨s, hs, hnone⟩ := Option.map_eq_some_iff.1 hdefaults
  have hdone := h 5 (by decide +kernel) (by decide +kernel) s hs
  rw [Tree.defaultsWithInherited_eq, hnone] at hdone
  have hfirst : (promotedTree.inheritedDefault? (promotedTree.overridden 5) 0).isSome = true := by
    exact Tree.isSome_inheritedDefault?_iff.2 ⟨2, overridden_promotedTree, by decide +kernel⟩
  have hall : AllDefault [none] (promotedTree.inheritedDefault? (promotedTree.overridden 5)) := by
    intro i hi
    obtain rfl : i = 0 := by simpa using hi
    exact .inr hfirst
  have hsome := all_completedDefaults hall
  rw [hdone] at hsome
  exact absurd hsome (by decide)

/-! ## Lists of passes -/

variable {passes : List Pass}

/-- In a valid list only the inheritance of default values can come before a promotion that disturbs
it. -/
lemma pairwise_not_disturbs (hvalid : checkOrder passes = .ok ())
    (horder : isReversed (passes.map kind) .promoteFunctions .inheritDefaults = false) :
    passes.Pairwise fun a b => ¬ Disturbs b.kind a.kind := by
  obtain ⟨hnodup, hdependencies⟩ := checkOrder_eq_ok_iff.1 hvalid
  have hforward : ∀ later : PassKind, later ≠ .promoteFunctions →
      isReversed (passes.map kind) .promoteFunctions later = false →
      ¬ [later, .promoteFunctions].Sublist (passes.map kind) := by
    intro later hne hnot hsub
    rw [(isReversed_iff hne.symm hnodup).2 hsub] at hnot
    exact absurd hnot (by simp)
  refine List.pairwise_iff_forall_sublist.2 fun {a b} hab hdisturbs => ?_
  have hkinds : [a.kind, b.kind].Sublist (passes.map kind) := hab.map kind
  obtain ⟨hb, ha⟩ := hdisturbs
  rw [hb] at hkinds
  rcases ha with ha | ha | ha <;> rw [ha] at hkinds
  · exact hforward _ (by decide)
      (hdependencies (.promoteFunctions, .separateNames) (by decide)) hkinds
  · exact hforward _ (by decide)
      (hdependencies (.promoteFunctions, .publishNestedTypes) (by decide)) hkinds
  · exact hforward _ (by decide) horder hkinds

lemma kind_ne_of_nodup {front rest : List Pass} {pass : Pass}
    (h : ((front ++ pass :: rest).map kind).Nodup) :
    ∀ other ∈ front ++ rest, other.kind ≠ pass.kind := by
  rw [List.map_append, List.map_cons, List.nodup_middle, List.nodup_cons, ← List.map_append] at h
  exact fun other hother heq => h.1 (heq ▸ List.mem_map_of_mem hother)

/-- A list that inherits before it promotes consists of passes without a promotion, the inheritance,
others, the promotion, and passes without an inheritance. -/
lemma exists_parts_of_isReversed (hvalid : checkOrder passes = .ok ())
    (horder : isReversed (passes.map kind) .promoteFunctions .inheritDefaults = true) :
    ∃ front middle rest strip,
      passes = front ++ .inheritDefaults :: (middle ++ .promoteFunctions strip :: rest) ∧
        (∀ pass ∈ front, pass.kind ≠ .inheritDefaults ∧ pass.kind ≠ .promoteFunctions) ∧
        (∀ pass ∈ middle, pass.kind ≠ .promoteFunctions) ∧
        ∀ pass ∈ rest, pass.kind ≠ .inheritDefaults := by
  have hnodup := (checkOrder_eq_ok_iff.1 hvalid).1
  have hsub := (isReversed_iff (by decide) hnodup).1 horder
  obtain ⟨pair, hpair, hkinds⟩ := List.sublist_map_iff.1 hsub
  obtain ⟨inherit, tail, rfl⟩ : ∃ a l, pair = a :: l := List.exists_cons_of_ne_nil (by
    rintro rfl
    exact absurd hkinds (by simp))
  rw [List.map_cons, List.cons.injEq] at hkinds
  obtain ⟨promote, rfl, hpromote⟩ := List.map_eq_singleton_iff.1 hkinds.2.symm
  obtain ⟨before, after, rfl, hinherit, hafter⟩ := List.cons_sublist_iff.1 hpair
  obtain ⟨front, middle, rfl⟩ := List.append_of_mem hinherit
  obtain ⟨middle', rest, rfl⟩ := List.append_of_mem (List.singleton_sublist.1 hafter)
  obtain rfl : inherit = .inheritDefaults := by
    cases inherit <;> simp [Pass.kind] at hkinds ⊢
  obtain ⟨strip, rfl⟩ : ∃ strip, promote = .promoteFunctions strip := by
    cases promote <;> simp [Pass.kind] at hpromote ⊢
  have hparts : (front ++ .inheritDefaults :: middle) ++
        (middle' ++ .promoteFunctions strip :: rest) =
      front ++ .inheritDefaults :: ((middle ++ middle') ++ .promoteFunctions strip :: rest) := by
    simp
  have hparts' : (front ++ .inheritDefaults :: middle) ++
        (middle' ++ .promoteFunctions strip :: rest) =
      (front ++ .inheritDefaults :: (middle ++ middle')) ++ .promoteFunctions strip :: rest := by
    simp
  have hothers := kind_ne_of_nodup (hparts ▸ hnodup)
  have hothers' := kind_ne_of_nodup (hparts' ▸ hnodup)
  refine ⟨front, middle ++ middle', rest, strip, hparts, fun pass hpass => ⟨?_, ?_⟩,
    fun pass hpass => ?_, fun pass hpass => ?_⟩
  · exact hothers pass (by simp [hpass])
  · exact hothers' pass (by simp [hpass])
  · exact hothers' pass
      (List.mem_append_left _ (List.mem_append_right _ (List.mem_cons_of_mem _ hpass)))
  · exact hothers pass (by simp [hpass])

/-- Such a list has something to do again on what it made of `overrideTree`. -/
lemma not_idle_of_isReversed (hvalid : checkOrder passes = .ok ())
    (horder : isReversed (passes.map kind) .promoteFunctions .inheritDefaults = true) :
    (overrideTree.applyPasses passes).tree = promotedTree ∧
      (promotedTree.applyPasses passes).result ≠ .ok 0 := by
  obtain ⟨front, middle, rest, strip, hparts, hfront, hmiddle, hrest⟩ :=
    exists_parts_of_isReversed hvalid horder
  rw [Tree.applyPasses_of_checkOrder hvalid, Tree.applyPasses_of_checkOrder hvalid, hparts]
  constructor
  · rw [(runInOrder_append fun pass hpass => idle_overrideTree (hfront pass hpass).2).1]
    have hinherit : ((Pass.inheritDefaults).run overrideTree).Idle overrideTree :=
      idle_overrideTree (by decide)
    rw [(runInOrder_cons _ _ _).1, hinherit.1,
      (runInOrder_append fun pass hpass => idle_overrideTree (hmiddle pass hpass)).1,
      (runInOrder_cons _ _ _).1, run_promoteFunctions_overrideTree]
    exact (runInOrder_idle fun pass hpass => idle_promotedTree (hrest pass hpass)).1
  · rw [(runInOrder_append fun pass hpass => idle_promotedTree (hfront pass hpass).1).2]
    obtain ⟨-, n, hn, hresult⟩ := runInOrder_cons .inheritDefaults
      (middle ++ .promoteFunctions strip :: rest) promotedTree
    obtain ⟨m, hm⟩ := exists_result_runInOrder (middle ++ .promoteFunctions strip :: rest)
      ((Pass.inheritDefaults).run promotedTree).tree
    rw [hresult, hm]
    intro hzero
    have hsum : n + m = 0 := Except.ok.inj hzero
    have hchanges : promotedTree.inheritDefaults.changes = n := Except.ok.inj hn
    exact not_inherited_promotedTree
      (Tree.changes_inheritDefaults_eq_zero_iff.1 (hchanges.trans (by omega)))

end Pass

open Pass in
/-- A valid list of passes has nothing to do on its own output, whatever the tree, exactly if it
does not inherit default values before it promotes functions. -/
theorem Tree.rerun_idle_iff {passes : List Pass} (hvalid : checkOrder passes = .ok ()) :
    (∀ t : Tree, (∃ n, (t.applyPasses passes).result = .ok n) ∧
      ((t.applyPasses passes).tree.applyPasses passes).result = .ok 0 ∧
      ((t.applyPasses passes).tree.applyPasses passes).tree = (t.applyPasses passes).tree) ↔
    isReversed (passes.map kind) .promoteFunctions .inheritDefaults = false := by
  constructor
  · intro h
    by_contra hreversed
    rw [Bool.not_eq_false] at hreversed
    obtain ⟨htree, hresult⟩ := not_idle_of_isReversed hvalid hreversed
    have hagain := (h overrideTree).2.1
    rw [htree] at hagain
    exact hresult hagain
  · intro horder t
    have hsettled := settled_runInOrder (pairwise_not_disturbs hvalid horder) t
    rw [Tree.applyPasses_of_checkOrder hvalid, Tree.applyPasses_of_checkOrder hvalid]
    have hidle := runInOrder_idle fun pass hpass => (hsettled pass hpass).idle
    exact ⟨exists_result_runInOrder passes t, hidle.2, hidle.1⟩

theorem Tree.rerun_idle_standard : Pass.checkOrder Pass.standard = .ok () ∧
    ∀ t : Tree, (∃ n, (t.applyPasses Pass.standard).result = .ok n) ∧
      ((t.applyPasses Pass.standard).tree.applyPasses Pass.standard).result = .ok 0 ∧
      ((t.applyPasses Pass.standard).tree.applyPasses Pass.standard).tree =
        (t.applyPasses Pass.standard).tree :=
  ⟨rfl, (Tree.rerun_idle_iff Pass.checkOrder_standard).2 (by decide)⟩

/-- The list is valid, but its second run makes a change. -/
theorem Pass.rerun_overrideTree :
    checkOrder [.inheritDefaults, .promoteFunctions false] = .ok () ∧
      ((overrideTree.applyPasses [.inheritDefaults, .promoteFunctions false]).tree.applyPasses
        [.inheritDefaults, .promoteFunctions false]).result ≠ .ok 0 := by
  refine ⟨rfl, ?_⟩
  have hreversed := @not_idle_of_isReversed [.inheritDefaults, .promoteFunctions false] rfl rfl
  rw [hreversed.1]
  exact hreversed.2

end Bindery
