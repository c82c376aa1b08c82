import Bindery.Proofs.Document.Nodes
import Bindery.Proofs.Pass.Counts
import Bindery.Proofs.Tree.Alike
import Bindery.Proofs.Tree.Renumbering

/-!
# When passes change nothing

The number of changes is all that a list of passes tells about whether it has done anything.  It is
zero exactly if the dump of the tree is the same before and after (`Tree.changes_exact`).

* A tree that has come of another one and looks the same in a dump is that tree
  (`Develops.eq_of_dump`): the declarations have kept their places.
* A pass that counts nothing leaves the tree as it was (`tree_run_of_tally`).
* A pass that has done something is not undone by those behind it.  Each kind of pass stands in the
  list once, and names, access levels and marks are changed by one kind each; promotions make the
  tree grow; and of the two passes that change default values one cannot take back what the other
  has done (`tally_eq_zero_of_tree`).
-/

namespace Bindery

/-! ## Trees that look the same -/

namespace Tree

variable {free : List Field} {t u : Tree}

/-- The order in which declarations were added cannot be seen in a dump, but a development does not
change it. -/
theorem Develops.eq_of_dump (h : t.Develops free u) (hdump : u.dump = t.dump) : u = t := by
  have hsame := renumbered_of_toNodes (DeclNode.writeAll_injective hdump)
  have hplace : ∀ id < t.size, renumbering (DeclNode.writeAll_injective hdump) id = id := by
    intro id hid
    refine eq_of_usr_eq (hsame.lt_size_iff.2 hid) (hsame.size_eq ▸ hid) ?_
    rw [hsame.decl_eq, h.reads Decl.usr Decl.usr_shape hid]
  refine ext_reads hsame.size_eq (fun id hid => h.parent?_eq hid) fun id hid => ?_
  have hdecl := hsame.decl_eq id
  rwa [hplace id hid] at hdecl

/-- A development without additions that leaves the free fields alone as well changes nothing. -/
lemma Develops.eq_of_sameIn (h : t.Develops free u) (hsize : u.size = t.size)
    (hsame : ∀ field ∈ free, ∀ id < t.size, (t.decl id).SameIn field (u.decl id)) : u = t := by
  refine ext_reads hsize (fun id hid => h.parent?_eq hid) fun id hid => ?_
  refine (Decl.eq_of_shape (h.shape_eq hid).symm fun field => ?_).symm
  by_cases hfield : field ∈ free
  · exact hsame field hfield id hid
  · exact h.same field hfield id hid

end Tree

lemma newlyIgnored_eq_zero_iff {a b : Decl} (h : a.ignored = true → b.ignored = true) :
    newlyIgnored a b = 0 ↔ a.ignored = b.ignored := by
  unfold newlyIgnored
  cases ha : a.ignored <;> cases hb : b.ignored <;> simp_all

namespace Pass

variable {pass : Pass} {passes : List Pass} {t u : Tree} {id : Nat}

/-! ## One pass -/

lemma tree_run_of_sameIn {field : Field} (htouches : pass.touches = [field])
    (hsize : (pass.run t).tree.size = t.size)
    (hsame : ∀ id < t.size, (t.decl id).SameIn field ((pass.run t).tree.decl id)) :
    (pass.run t).tree = t := by
  refine (develops_run pass t).eq_of_sameIn hsize ?_
  rw [htouches, List.forall_mem_singleton]
  exact hsame

/-- A pass that has no effect on any declaration leaves the tree as it is. -/
theorem tree_run_of_tally (h : t.tally pass.effectOn (pass.run t).tree = 0) :
    (pass.run t).tree = t := by
  have hnone := Tree.tally_eq_zero_iff.1 h
  cases pass with
  | promoteFunctions strip =>
    have hgrown := (Tree.result_promoteFunctions t strip).2
    refine tree_run_of_sameIn rfl (hgrown.trans (congrArg (t.size + ·) h)) fun id hid => ?_
    refine (newlyIgnored_eq_zero_iff fun hignored => ?_).1 (hnone id hid)
    exact (develops_run _ t).ignored_of hid hignored
  | separateNames | classifyEnums | publishNestedTypes =>
    exact tree_run_of_sameIn rfl (size_run (by decide) t) fun id hid =>
      differs_eq_zero_iff.1 (hnone id hid)
  | inheritDefaults =>
    exact Progress.tree_of_changes_sweep
      (fun _ _ hzero => Tree.givesDefaults_inheritDefaultsOf.tree_of_changes hzero)
      ((Tree.changes_inheritDefaults t).trans h)
  | dropDefaults =>
    exact Progress.tree_of_changes_sweep
      (fun _ _ hzero => Tree.givesDefaults_dropDefaultsOf.tree_of_changes hzero)
      ((Tree.changes_dropDefaults t).trans h)
  | leaveHandlesToHand =>
    -- each property that is marked counts
    exact Progress.tree_of_changes_sweep (fun _ _ hone => absurd hone one_ne_zero)
      ((Tree.changes_leaveHandlesToHand t).trans h)

/-! ## Passes behind -/

/-- The kind of the passes that change a field, if no others do. -/
def changedBy? : Field → Option PassKind
  | .name => some .separateNames
  | .flags => some .classifyEnums
  | .access => some .publishNestedTypes
  | .manual => some .leaveHandlesToHand
  | .ignored | .defaults => none

lemma kind_of_mem_touches {field : Field} {kind : PassKind} (hfield : field ∈ pass.touches)
    (hkind : changedBy? field = some kind) : pass.kind = kind := by
  cases pass <;> simp only [touches, List.mem_cons, List.not_mem_nil, or_false] at hfield
  case leaveHandlesToHand =>
    rcases hfield with rfl | rfl <;> simp_all [changedBy?, Pass.kind]
  all_goals
    subst hfield
    simp_all [changedBy?, Pass.kind]

/-- Passes of other kinds leave such a field alone. -/
lemma sameIn_runInOrder {field : Field} {kind : PassKind} (hkind : changedBy? field = some kind)
    (hothers : ∀ pass ∈ passes, pass.kind ≠ kind) (hid : id < t.size) :
    (t.decl id).SameIn field ((runInOrder passes t).tree.decl id) := by
  refine (develops_runInOrder passes t).same field (fun hmem => ?_) id hid
  obtain ⟨pass, hpass, hfield⟩ := List.mem_flatMap.1 hmem
  exact hothers pass hpass (kind_of_mem_touches hfield hkind)

/-- What the passes that change default values do to a list of them, all passes together do. -/
lemma related_runInOrder {Rel : List (Option String) → List (Option String) → Prop}
    (hrefl : ∀ values, Rel values values) (htrans : ∀ {a b c}, Rel a b → Rel b c → Rel a c)
    (hstep : ∀ pass ∈ passes, .defaults ∈ pass.touches → ∀ u id,
      Rel (u.decl id).defaultValues ((pass.run u).tree.decl id).defaultValues)
    (hid : id < t.size) :
    Rel (t.decl id).defaultValues ((runInOrder passes t).tree.decl id).defaultValues := by
  induction passes generalizing t with
  | nil => exact hrefl _
  | cons pass passes ih =>
    obtain ⟨hpass, hpasses⟩ := List.forall_mem_cons.1 hstep
    have hdev := develops_run pass t
    rw [(runInOrder_cons pass passes t).1]
    refine htrans ?_ (ih hpasses (Nat.lt_of_lt_of_le hid hdev.size_le))
    by_cases hfield : .defaults ∈ pass.touches
    · exact hpass hfield t id
    · have hsame : (t.decl id).defaults? = ((pass.run t).tree.decl id).defaults? :=
        hdev.same .defaults hfield id hid
      rw [Decl.defaultValues, Decl.defaultValues, hsame]
      exact hrefl _

/-- Passes that do not inherit default values can only drop some. -/
lemma trimming_runInOrder (hothers : ∀ pass ∈ passes, pass.kind ≠ .inheritDefaults)
    (hid : id < t.size) :
    Trimming (t.decl id).defaultValues ((runInOrder passes t).tree.decl id).defaultValues := by
  refine related_runInOrder Trimming.refl Trimming.trans (fun pass hpass hfield u i => ?_) hid
  cases pass with
  | dropDefaults => exact Tree.trimming_dropDefaults u i
  | inheritDefaults => exact absurd rfl (hothers _ hpass)
  | _ => simp [touches] at hfield

/-- Passes that do not drop default values can only add some. -/
lemma completion_runInOrder (hothers : ∀ pass ∈ passes, pass.kind ≠ .dropDefaults)
    (hid : id < t.size) :
    Completion (t.decl id).defaultValues ((runInOrder passes t).tree.decl id).defaultValues := by
  refine related_runInOrder Completion.refl Completion.trans (fun pass hpass hfield u i => ?_) hid
  cases pass with
  | inheritDefaults => exact Tree.completion_inheritDefaults u i
  | dropDefaults => exact absurd rfl (hothers _ hpass)
  | _ => simp [touches] at hfield

/-- If the passes behind a pass end in the tree that it was given, it has done nothing. -/
theorem tally_eq_zero_of_tree (hothers : ∀ other ∈ passes, other.kind ≠ pass.kind)
    (h : (runInOrder passes (pass.run t).tree).tree = t) :
    t.tally pass.effectOn (pass.run t).tree = 0 := by
  have hsize := (develops_run pass t).size_le
  have hback (field : Field) (hkind : changedBy? field = some pass.kind) (id : Nat)
      (hid : id < t.size) : (t.decl id).SameIn field ((pass.run t).tree.decl id) := by
    have hsame := sameIn_runInOrder hkind hothers (Nat.lt_of_lt_of_le hid hsize)
    rw [h] at hsame
    exact hsame.symm
  cases pass with
  | promoteFunctions strip =>
    have hgrown := (Tree.result_promoteFunctions t strip).2
    have hle := (develops_runInOrder passes ((promoteFunctions strip).run t).tree).size_le
    rw [h] at hle
    change (t.promoteFunctions strip).tree.size ≤ t.size at hle
    change t.tally newlyIgnored (t.promoteFunctions strip).tree = 0
    omega
  | separateNames =>
    exact Tree.tally_eq_zero_iff.2 fun id hid => differs_eq_zero_iff.2 (hback .name rfl id hid)
  | classifyEnums =>
    exact Tree.tally_eq_zero_iff.2 fun id hid => differs_eq_zero_iff.2 (hback .flags rfl id hid)
  | publishNestedTypes =>
    exact Tree.tally_eq_zero_iff.2 fun id hid => differs_eq_zero_iff.2 (hback .access rfl id hid)
  | leaveHandlesToHand =>
    exact Tree.tally_eq_zero_iff.2 fun id hid => differs_eq_zero_iff.2 (hback .manual rfl id hid)
  | inheritDefaults =>
    refine Tree.tally_eq_zero_iff.2 fun id hid => ?_
    have hadded := Tree.completion_inheritDefaults t id
    have hdropped := trimming_runInOrder hothers (Nat.lt_of_lt_of_le hid hsize)
    rw [h] at hdropped
    refine hadded.differences_eq.symm.trans ?_
    rw [hadded.eq_of_trimming hdropped, differences_self]
  | dropDefaults =>
    refine Tree.tally_eq_zero_iff.2 fun id hid => ?_
    have hdropped := Tree.trimming_dropDefaults t id
    have hadded := completion_runInOrder hothers (Nat.lt_of_lt_of_le hid hsize)
    rw [h] at hadded
    have hsame : (t.decl id).defaultValues = (t.dropDefaults.tree.decl id).defaultValues :=
      hadded.eq_of_trimming hdropped
    refine hdropped.differences_eq.symm.trans ?_
    rw [← hsame, differences_self]

/-! ## Lists of passes -/

/-- A list without repetitions counts no change exactly if it leaves the tree as it is. -/
lemma result_runInOrder_eq_zero_iff (hnodup : (passes.map kind).Nodup) :
    (runInOrder passes t).result = .ok 0 ↔ (runInOrder passes t).tree = t := by
  induction passes generalizing t with
  | nil => exact iff_of_true rfl rfl
  | cons pass passes ih =>
    rw [List.map_cons, List.nodup_cons] at hnodup
    obtain ⟨hnew, hnodup⟩ := hnodup
    obtain ⟨htree, n, hn, hresult⟩ := runInOrder_cons pass passes t
    obtain ⟨m, hm⟩ := exists_result_runInOrder passes (pass.run t).tree
    have htally : t.tally pass.effectOn (pass.run t).tree = n :=
      Except.ok.inj ((result_run pass t).symm.trans hn)
    rw [hresult, hm, htree]
    constructor
    · intro hzero
      have hsum : n + m = 0 := Except.ok.inj hzero
      have hsame : (pass.run t).tree = t := tree_run_of_tally (by omega)
      rw [hsame] at hm ⊢
      exact (ih hnodup).1 (by rw [hm, show m = 0 by omega])
    · intro hback
      have hzero : t.tally pass.effectOn (pass.run t).tree = 0 :=
        tally_eq_zero_of_tree (fun other hother heq => hnew (heq ▸ List.mem_map_of_mem hother))
          hback
      rw [tree_run_of_tally hzero] at hm hback
      have hrest := (ih hnodup).2 hback
      rw [hm] at hrest
      rw [← htally, hzero, Except.ok.inj hrest]
      rfl

end Pass

/-- The number of changes that a pass returns is the number of declarations or parameters that it
has changed; promotions count the functions that are hidden, and add as many methods.  For a valid
list of passes this number is zero exactly if the dump of the tree is the same before and after. -/
theorem Tree.changes_exact (t : Tree) :
    (∀ pass : Pass, (pass.run t).result = .ok (t.tally pass.effectOn (pass.run t).tree)) ∧
      (∀ strip, (t.promoteFunctions strip).tree.size =
        t.size + t.tally newlyIgnored (t.promoteFunctions strip).tree) ∧
      ∀ passes, Pass.checkOrder passes = .ok () →
        ((t.applyPasses passes).result = .ok 0 ↔ (t.applyPasses passes).tree.dump = t.dump) := by
  refine ⟨fun pass => Pass.result_run pass t, fun strip => (t.result_promoteFunctions strip).2, ?_⟩
  intro passes hvalid
  rw [Tree.applyPasses_of_checkOrder hvalid,
    Pass.result_runInOrder_eq_zero_iff (Pass.checkOrder_eq_ok_iff.1 hvalid).1]
  constructor
  · intro hsame
    rw [hsame]
  · exact (Pass.develops_runInOrder passes t).eq_of_dump

/-- A class `B` with a virtual method that has default values, and a class `D` derived from it that
overrides the method and leaves the last of them out. -/
def Pass.refillTree : Tree :=
  Tree.empty.changed [
    .insert none (.new ⟨"tu:a.h"⟩ "a.h" .translationUnit),
    .insert (some 0) (.new ⟨"B"⟩ "B" (.classType true [])),
    .insert (some 1) (.new ⟨"m"⟩ "foo" (.method
      ⟨⟨.void, [⟨"x", .builtin "int", some "1"⟩, ⟨"y", .builtin "int", some "2"⟩], false⟩,
        true, false, none, none⟩)),
    .insert (some 0) (.new ⟨"D"⟩ "D" (.classType true [⟨"B"⟩])),
    .insert (some 3) (.new ⟨"n"⟩ "foo" (.method
      ⟨⟨.void, [⟨"x", .builtin "int", some "1"⟩, ⟨"y", .builtin "int", none⟩], false⟩,
        false, false, none, none⟩))]

/-- The override loses its only default value and inherits it again, but not alone. -/
theorem Tree.changes_exact_refillTree :
    Pass.checkOrder [.dropDefaults, .inheritDefaults] = .ok () ∧
      (Pass.dropDefaults.run Pass.refillTree).result = .ok 1 ∧
      (Pass.refillTree.applyPasses [.dropDefaults, .inheritDefaults]).tree.dump ≠
        Pass.refillTree.dump := by
  have hvalid : Pass.checkOrder [.dropDefaults, .inheritDefaults] = .ok () := rfl
  have hone : (Pass.dropDefaults.run Pass.refillTree).result = .ok 1 := by decide +kernel
  refine ⟨hvalid, hone, fun hdump => ?_⟩
  have hzero := ((Tree.changes_exact Pass.refillTree).2.2 _ hvalid).2 hdump
  obtain ⟨-, n, hn, hresult⟩ :=
    Pass.runInOrder_cons .dropDefaults [.inheritDefaults] Pass.refillTree
  obtain ⟨m, hm⟩ := Pass.exists_result_runInOrder [.inheritDefaults]
    (Pass.dropDefaults.run Pass.refillTree).tree
  rw [Tree.applyPasses_of_checkOrder hvalid, hresult, hm] at hzero
  have hsum : n + m = 0 := Except.ok.inj hzero
  have hn' : n = 1 := Except.ok.inj (hn.symm.trans hone)
  omega

end Bindery
