import Bindery.Proofs.Pass.Rerun

/-!
# An override can be called like what it overrides

After the passes in their usual order a call through a derived class may leave out every argument
that a call through the base may (`callable_like_overridden`).  The reason is that the inheritance
of default values has nothing left to do at the end: going through the parameters from the last to
the first, each of them has a default value of its own, or it could still take one over, since all
later ones have theirs (`all_drop_of_completedDefaults`).
-/

namespace Bindery

/-- Default values with which nothing can be taken over are there wherever they can be
inherited from some position on. -/
theorem all_drop_of_completedDefaults {own : List (Option String)}
    {inherited : Nat → Option String} (h : completedDefaults own inherited = own) {n : Nat}
    (hinherited : ∀ i, n ≤ i → i < own.length → (inherited i).isSome = true) :
    (own.drop n).all (·.isSome) = true := by
  induction own generalizing inherited n with
  | nil => simp
  | cons value own ih =>
    obtain ⟨hvalue, hrest⟩ := completedDefaults_cons_eq_iff.1 h
    have hlater : ∀ i, n - 1 ≤ i → i < own.length → (inherited (i + 1)).isSome = true :=
      fun i hi hlt => hinherited (i + 1) (by omega) (Nat.succ_lt_succ hlt)
    cases n with
    | succ n => exact ih hrest hlater
    | zero =>
      -- the later ones all have a value, so a missing first one would have been taken over
      have hothers : own.all (·.isSome) = true := by simpa using ih hrest hlater
      rw [List.drop_zero, List.all_cons, hothers, Bool.and_true]
      by_contra hmissing
      rw [Option.not_isSome_iff_eq_none] at hmissing
      have hnone := hvalue hmissing (allDefault_of_all hothers)
      have hfirst := hinherited 0 (Nat.le_refl 0) (Nat.succ_pos _)
      rw [hnone] at hfirst
      exact absurd hfirst (by simp)

namespace Tree

variable {t : Tree}

/-- A call may leave out all arguments from a position on. -/
def OptionalFrom (t : Tree) (id n : Nat) : Prop :=
  ∃ s, (t.decl id).signature? = some s ∧ (s.defaults.drop n).all (·.isSome) = true

instance (t : Tree) (id n : Nat) : Decidable (t.OptionalFrom id n) :=
  decidable_of_iff
    ((t.decl id).signature?.any (fun s => (s.defaults.drop n).all (·.isSome)) = true) <| by
      rw [Option.any_eq_true]
      rfl

lemma OptionalFrom.hasDefault {id n i : Nat} (h : t.OptionalFrom id n) {s : Signature}
    (hs : (t.decl id).signature? = some s) (hn : n ≤ i) (hi : i < s.arguments.length) :
    t.HasDefault id i := by
  obtain ⟨s', hs', hall⟩ := h
  obtain rfl : s' = s := Option.some.inj (hs'.symm.trans hs)
  have hlt : i < s'.defaults.length := by rwa [Signature.length_defaults]
  have hmem : s'.defaults[i] ∈ s'.defaults.drop n :=
    List.mem_drop_iff_getElem.2 ⟨i - n, by omega, by congr 1; omega⟩
  refine ⟨s', hs, ?_⟩
  rw [List.getElem?_eq_getElem hlt]
  exact List.all_eq_true.1 hall _ hmem

/-- A method with nothing left to take over can be called like any that it overrides. -/
lemma Inherited.optionalFrom (h : t.Inherited) {m b n : Nat} (hb : b ∈ t.overridden m)
    (hignored : (t.decl m).ignored = false) (hoptional : t.OptionalFrom b n) :
    t.OptionalFrom m n := by
  obtain ⟨-, -, -, -, -, -, -, -, -, hover⟩ := mem_overridden_iff.1 hb
  obtain ⟨own, other, hown, hother, -, -, hparameters⟩ := overrides_iff.1 hover
  obtain ⟨hkind, hsignature⟩ := Decl.signature?_of_method? hown
  have hlength : own.signature.arguments.length = other.signature.arguments.length := by
    simpa [Signature.parameterTypes] using (congrArg List.length hparameters).symm
  refine ⟨own.signature, hsignature, ?_⟩
  refine all_drop_of_completedDefaults (h m hkind hignored own.signature hsignature)
    fun i hn hi => isSome_inheritedDefault?_iff.2 ⟨b, hb, ?_⟩
  rw [Signature.length_defaults, hlength] at hi
  exact hoptional.hasDefault (Decl.signature?_of_method? hother).2 hn hi

/-- The usual passes never fail, and after them every method that is not kept out can be called
with as few arguments as any virtual method that it overrides. -/
theorem callable_like_overridden (t : Tree) :
    (∃ n, (t.applyPasses Pass.standard).result = .ok n) ∧
      ∀ m b, b ∈ (t.applyPasses Pass.standard).tree.overridden m →
        ((t.applyPasses Pass.standard).tree.decl m).ignored = false →
        ∀ n, (t.applyPasses Pass.standard).tree.OptionalFrom b n →
          (t.applyPasses Pass.standard).tree.OptionalFrom m n := by
  rw [applyPasses_of_checkOrder Pass.checkOrder_standard]
  refine ⟨Pass.exists_result_runInOrder Pass.standard t, fun m b hb hignored n hoptional => ?_⟩
  have hsettled := @Pass.settled_runInOrder Pass.standard (by decide) t
  have hinherited : (Pass.runInOrder Pass.standard t).tree.Inherited :=
    hsettled .inheritDefaults (by decide)
  exact hinherited.optionalFrom hb hignored hoptional

/-! ## The method that arrives in time -/

/-- `overrideTree` after the usual passes: the new method in `D` has the default value of the one in
`B`. -/
def inheritedTree : Tree := Pass.promotedTree.edit 5 (.setDefaults [some "5"])

lemma overridden_promotedTree_eq : Pass.promotedTree.overridden 5 = [2] := by
  have hclass : Pass.promotedTree.class? ⟨"B"⟩ = some 1 := by decide +kernel
  have hbases : (Pass.promotedTree.decl 1).bases = [] := by decide +kernel
  have hancestry : Pass.promotedTree.ancestry Pass.promotedTree.ids [⟨"B"⟩] = [1] := by
    rw [ancestry, hclass]
    dsimp only
    rw [if_pos (by decide +kernel), hbases, List.nil_append, ancestry]
  have hmethod : (Pass.promotedTree.decl 5).method? =
      some ⟨⟨.void, [⟨"x", .builtin "int", none⟩], false⟩, false, false,
        some ⟨"self", .pointerTo (.named "D" false (.declared ⟨"D"⟩)), none⟩, some ⟨"f"⟩⟩ := by
    decide +kernel
  have howner : Pass.promotedTree.parent? 5 = some 3 := by decide +kernel
  have hderived : (Pass.promotedTree.decl 3).bases = [⟨"B"⟩] := by decide +kernel
  rw [overridden, hmethod, howner]
  dsimp only
  rw [if_neg (by decide), hderived, hancestry]
  decide +kernel

lemma inheritDefaults_promotedTree : Pass.promotedTree.inheritDefaults.tree = inheritedTree := by
  have hmethods : (Pass.promotedTree.walk.filter fun id =>
      (Pass.promotedTree.decl id).kind = .method && !(Pass.promotedTree.decl id).ignored) =
      [2, 5] := by decide +kernel
  have hbase : (Pass.promotedTree.inheritDefaultsOf 2).tree = Pass.promotedTree := by
    have hdefaults : ∀ s ∈ (Pass.promotedTree.decl 2).signature?,
        s.defaults.all (·.isSome) = true := by decide +kernel
    rcases inheritDefaultsOf_cases Pass.promotedTree 2 with ⟨-, h⟩ | ⟨s, hs, htree, -⟩
    · rw [h, Progress.unchanged]
    · rw [htree, defaultsWithInherited_eq, completedDefaults_of_all (hdefaults s hs)]
      exact edit_setDefaults_self hs
  have hnew : (Pass.promotedTree.inheritDefaultsOf 5).tree = inheritedTree := by
    have hdefaults : (Pass.promotedTree.decl 5).signature?.map (·.defaults) = some [none] := by
      decide +kernel
    have hcompleted : completedDefaults [none] (Pass.promotedTree.inheritedDefault? [2]) =
        [some "5"] := by decide +kernel
    obtain ⟨s, hs, hnone⟩ := Option.map_eq_some_iff.1 hdefaults
    rw [inheritDefaultsOf, hs]
    dsimp only
    rw [defaultsWithInherited_eq, overridden_promotedTree_eq, hnone, hcompleted, inheritedTree]
  rw [inheritDefaults, hmethods, Progress.sweep_cons, Progress.tree_andThen, hbase]
  exact hnew

lemma applyPasses_overrideTree :
    (Pass.overrideTree.applyPasses Pass.standard).tree = inheritedTree := by
  have hfront : ∀ pass ∈ [Pass.separateNames, .classifyEnums],
      (pass.run Pass.promotedTree).Idle Pass.promotedTree := fun pass hpass =>
    Pass.idle_promotedTree (by revert pass; decide)
  have hrest : ∀ pass ∈ [Pass.dropDefaults, .publishNestedTypes, .leaveHandlesToHand],
      (pass.run inheritedTree).Idle inheritedTree := by
    simp only [List.forall_mem_cons, List.not_mem_nil, false_imp_iff, implies_true, and_true]
    exact ⟨Pass.idle_of_entries (by decide +kernel) (by decide +kernel),
      Pass.idle_of_entries (by decide +kernel) (by decide +kernel),
      Pass.idle_of_entries (by decide +kernel) (by decide +kernel)⟩
  have hparts : Pass.standard = .promoteFunctions false :: ([.separateNames, .classifyEnums] ++
      .inheritDefaults :: [.dropDefaults, .publishNestedTypes, .leaveHandlesToHand]) := rfl
  have hinherit : (Pass.inheritDefaults.run Pass.promotedTree).tree = inheritedTree :=
    inheritDefaults_promotedTree
  rw [applyPasses_of_checkOrder Pass.checkOrder_standard, hparts, (Pass.runInOrder_cons _ _ _).1,
    Pass.run_promoteFunctions_overrideTree, (Pass.runInOrder_append hfront).1,
    (Pass.runInOrder_cons _ _ _).1, hinherit]
  exact (Pass.runInOrder_idle hrest).1

theorem callable_like_overridden_overrideTree :
    2 ∈ (Pass.overrideTree.applyPasses Pass.standard).tree.overridden 5 ∧
      (Pass.overrideTree.applyPasses Pass.standard).tree.OptionalFrom 2 0 ∧
      (Pass.overrideTree.applyPasses Pass.standard).tree.OptionalFrom 5 0 := by
  have hcallable := (callable_like_overridden Pass.overrideTree).2 5 2
  rw [applyPasses_overrideTree] at hcallable ⊢
  have howner : inheritedTree.parent? 5 = some 3 := by decide +kernel
  have hderived : ⟨"B"⟩ ∈ (inheritedTree.decl 3).bases := by decide +kernel
  have hclass : inheritedTree.class? ⟨"B"⟩ = some 1 := by decide +kernel
  have hoverridden : 2 ∈ inheritedTree.overridden 5 :=
    mem_overridden_of_base (by decide +kernel) howner hderived hclass (by decide +kernel)
      (by decide +kernel) (by decide +kernel)
  have hoptional : inheritedTree.OptionalFrom 2 0 := by decide +kernel
  exact ⟨hoverridden, hoptional, hcallable hoverridden (by decide +kernel) 0 hoptional⟩

end Tree

end Bindery
