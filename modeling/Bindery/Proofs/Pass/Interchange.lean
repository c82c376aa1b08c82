import Bindery.Proofs.Pass.Footprints
import Bindery.Proofs.Pass.Overrides

/-!
# Which passes can change places

Two passes can change places if neither looks at what the other changes.  The pass that adds methods
looks at nearly everything and is looked at by nearly every other; only the marks of enumerations have
nothing to do with it (`interchange_promoteFunctions_classifyEnums`).

`orderSensitive` lists the pairs that are left.  Lists of the same passes do the same to every tree if
they have these pairs in the same order (`applyPasses_of_perm`): the first pass of one list is brought
to the front of the other, past passes with which it can change places, and so on with the rest.
-/

namespace Bindery

namespace Pass

variable {a b : Pass} {passes passes' : List Pass}

/-! ## Changing places -/

/-- Two passes can change places: the tree is the same, and neither does more or less for the other's
having been run before. -/
def Interchange (a b : Pass) : Prop :=
  ∀ t : Tree, (b.run (a.run t).tree).tree = (a.run (b.run t).tree).tree ∧
    (b.run (a.run t).tree).result = (b.run t).result ∧
    (a.run (b.run t).tree).result = (a.run t).result

lemma Interchange.symm (h : Interchange a b) : Interchange b a :=
  fun t => ⟨(h t).1.symm, (h t).2.2, (h t).2.1⟩

lemma interchange_of_disjoint (ha : a.kind ≠ .promoteFunctions) (hb : b.kind ≠ .promoteFunctions)
    (hab : Disjoint a.changes b.looksAt) (hba : Disjoint b.changes a.looksAt) :
    Interchange a b :=
  (hasFootprint_run hb).commute (hasFootprint_run ha) hba hab

theorem interchange_promoteFunctions_classifyEnums (strip : Bool) :
    Interchange (.promoteFunctions strip) .classifyEnums := by
  intro t
  set marked := (run .classifyEnums t).tree with hmarked
  set grown := (run (.promoteFunctions strip) t).tree with hgrown
  -- Apart from marks, the new methods are the same.
  have hmarks (u : Tree) : u.Alike (changes .classifyEnums)ᶜ u (run .classifyEnums u).tree :=
    keeps_run (by decide) u
  have hpromoted : Outcome.Alike t (looksAt (.promoteFunctions strip))
      (run (.promoteFunctions strip) t) (run (.promoteFunctions strip) marked) :=
    alike_run (.promoteFunctions strip) (hmarks t)
  have hdev : t.Develops [.ignored] grown := develops_run (.promoteFunctions strip) t
  have hclassified := (hmarks grown).rebase (hdev.mono (Field.subset_all _))
  have hrest := hclassified.symm.trans hpromoted.tree
  -- And all marks are what the members demand.
  have hleft : (run .classifyEnums grown).tree.Classified :=
    settled_run .classifyEnums grown
  have hright : (run (.promoteFunctions strip) marked).tree.Classified :=
    Tree.Classified.of_develops (settled_run .classifyEnums t)
      (develops_run (.promoteFunctions strip) marked) (by simp [touches])
  have hall : t.Alike Set.univ (run .classifyEnums grown).tree
      (run (.promoteFunctions strip) marked).tree := by
    refine { hrest with same := fun field id _ => ?_ }
    by_cases hfield : field = .flags
    · subst hfield
      have hdemanded := hrest.reads Decl.demandedFlags? Decl.demandedFlags?_shape id
      exact (Tree.classifiedAt_iff.1 (hleft id)).trans
        (hdemanded.symm.trans (Tree.classifiedAt_iff.1 (hright id)).symm)
    · exact hrest.same field id (by simpa [looksAt, changes, touches] using hfield)
  refine ⟨hall.eq, ?_, hpromoted.result_eq⟩
  exact congrArg Except.ok (Tree.changes_classifyEnums_of_develops hdev (by simp))

/-- Pairs of passes whose order makes a difference. -/
def orderSensitive : List (PassKind × PassKind) :=
  [(.promoteFunctions, .separateNames), (.promoteFunctions, .inheritDefaults),
    (.promoteFunctions, .dropDefaults), (.promoteFunctions, .publishNestedTypes),
    (.promoteFunctions, .leaveHandlesToHand), (.inheritDefaults, .dropDefaults),
    (.leaveHandlesToHand, .separateNames), (.leaveHandlesToHand, .publishNestedTypes)]

lemma disjoint_changes_looksAt (ha : a.kind ≠ .promoteFunctions)
    (hb : b.kind ≠ .promoteFunctions) (hne : a.kind ≠ b.kind)
    (hab : (a.kind, b.kind) ∉ orderSensitive) (hba : (b.kind, a.kind) ∉ orderSensitive) :
    Disjoint a.changes b.looksAt := by
  refine Set.disjoint_left.2 ?_
  rintro ⟨field, kind⟩ hchanged hlooked
  cases a <;> cases b <;>
    simp_all [changes, looksAt, touches, orderSensitive, Pass.kind, Kind.isCallable]

/-- Any two passes can change places unless they are listed as sensitive to their order. -/
lemma interchange_of_not_mem (hne : a.kind ≠ b.kind)
    (hab : (a.kind, b.kind) ∉ orderSensitive) (hba : (b.kind, a.kind) ∉ orderSensitive) :
    Interchange a b := by
  by_cases ha : a.kind = .promoteFunctions
  · cases a with
    | promoteFunctions strip =>
      cases b with
      | classifyEnums => exact interchange_promoteFunctions_classifyEnums strip
      | promoteFunctions strip' => exact absurd rfl hne
      | _ => exact absurd (by simp [orderSensitive, Pass.kind]) hab
    | _ => simp [Pass.kind] at ha
  · by_cases hb : b.kind = .promoteFunctions
    · cases b with
      | promoteFunctions strip =>
        cases a with
        | classifyEnums => exact (interchange_promoteFunctions_classifyEnums strip).symm
        | promoteFunctions strip' => exact absurd rfl hne
        | _ => exact absurd (by simp [orderSensitive, Pass.kind]) hba
      | _ => simp [Pass.kind] at hb
    · exact interchange_of_disjoint ha hb (disjoint_changes_looksAt ha hb hne hab hba)
        (disjoint_changes_looksAt hb ha hne.symm hba hab)

/-! ## Lists of passes -/

/-- Two lists of passes do the same to every tree and count the same changes. -/
def SameRun (passes passes' : List Pass) : Prop :=
  ∀ t : Tree, (runInOrder passes t).tree = (runInOrder passes' t).tree ∧
    (runInOrder passes t).result = (runInOrder passes' t).result

namespace SameRun

lemma refl (passes : List Pass) : SameRun passes passes := fun _ => ⟨rfl, rfl⟩

lemma trans {passes'' : List Pass} (h : SameRun passes passes') (h' : SameRun passes' passes'') :
    SameRun passes passes'' :=
  fun t => ⟨(h t).1.trans (h' t).1, (h t).2.trans (h' t).2⟩

lemma cons (pass : Pass) (h : SameRun passes passes') :
    SameRun (pass :: passes) (pass :: passes') := by
  intro t
  obtain ⟨htree, n, hn, hresult⟩ := runInOrder_cons pass passes t
  obtain ⟨htree', n', hn', hresult'⟩ := runInOrder_cons pass passes' t
  rw [hn] at hn'
  cases hn'
  rw [htree, htree', hresult, hresult', (h _).1, (h _).2]
  exact ⟨rfl, rfl⟩

lemma swap (h : Interchange a b) (passes : List Pass) :
    SameRun (a :: b :: passes) (b :: a :: passes) := by
  intro t
  obtain ⟨hsame, hb, ha⟩ := h t
  obtain ⟨htree, n, hn, hresult⟩ := runInOrder_cons a (b :: passes) t
  obtain ⟨htree₂, m, hm, hresult₂⟩ := runInOrder_cons b passes (a.run t).tree
  obtain ⟨htree', m', hm', hresult'⟩ := runInOrder_cons b (a :: passes) t
  obtain ⟨htree₂', n', hn', hresult₂'⟩ := runInOrder_cons a passes (b.run t).tree
  rw [hb, hm'] at hm
  rw [ha, hn] at hn'
  cases hm
  cases hn'
  rw [htree, htree₂, htree', htree₂', hresult, hresult₂, hresult', hresult₂', hsame]
  refine ⟨rfl, ?_⟩
  cases (runInOrder passes (a.run (b.run t).tree).tree).result with
  | error e => rfl
  | ok k => exact congrArg Except.ok (Nat.add_left_comm n m k)

/-- A pass can be brought to the front past passes with which it can change places. -/
lemma toFront {front : List Pass} (h : ∀ b ∈ front, Interchange b a) (passes : List Pass) :
    SameRun (front ++ a :: passes) (a :: (front ++ passes)) := by
  induction front with
  | nil => exact refl _
  | cons b front ih =>
    rw [List.forall_mem_cons] at h
    exact ((ih h.2).cons b).trans (swap h.1 (front ++ passes))

/-- Lists of the same passes do the same if any two that stand in opposite orders can change
places. -/
lemma of_perm (hperm : passes.Perm passes') (hnodup : passes.Nodup)
    (horder : ∀ a b, [a, b].Sublist passes → [b, a].Sublist passes' → Interchange b a) :
    SameRun passes passes' := by
  induction passes generalizing passes' with
  | nil =>
    rw [hperm.nil_eq]
    exact refl _
  | cons a passes ih =>
    obtain ⟨front, back, rfl⟩ := List.append_of_mem (hperm.subset List.mem_cons_self)
    obtain ⟨hmem, hnodup'⟩ := List.nodup_cons.1 hnodup
    have hrest : passes.Perm (front ++ back) :=
      List.Perm.cons_inv (hperm.trans List.perm_middle)
    have hfront : ∀ b ∈ front, Interchange b a := by
      intro b hb
      have hb' : b ∈ passes := hrest.symm.subset (List.mem_append_left _ hb)
      refine horder a b ((List.singleton_sublist.2 hb').cons_cons a) ?_
      exact (List.singleton_sublist.2 hb).append (List.singleton_sublist.2 List.mem_cons_self)
    have hsame : SameRun passes (front ++ back) := by
      refine ih hrest hnodup' fun x y hxy hyx => horder x y (hxy.cons a) (hyx.trans ?_)
      exact (List.Sublist.refl front).append (List.sublist_cons_self a back)
    intro t
    obtain ⟨htree, hresult⟩ := (hsame.cons a) t
    obtain ⟨htree', hresult'⟩ := toFront hfront back t
    exact ⟨htree.trans htree'.symm, hresult.trans hresult'.symm⟩

end SameRun

/-- In a list without repetitions, two elements stand in one order only. -/
lemma not_sublist_swap {α : Type} {x y : α} {l : List α} (hnodup : l.Nodup)
    (h : [x, y].Sublist l) : ¬ [y, x].Sublist l := by
  induction l with
  | nil => simp at h
  | cons c l ih =>
    obtain ⟨hmem, hnodup⟩ := List.nodup_cons.1 hnodup
    rw [List.cons_sublist_cons', List.singleton_sublist] at h ⊢
    rintro (hswap | ⟨rfl, hx⟩)
    · rcases h with h | ⟨rfl, hy⟩
      · exact ih hnodup h hswap
      · exact hmem (hswap.subset (by simp))
    · rcases h with h | ⟨rfl, hy⟩
      · exact hmem (h.subset (by simp))
      · exact hmem hx

end Pass

namespace Tree

/-- Valid lists of the same passes do the same to a tree, and count the same changes, if the pairs
that are sensitive to their order stand in the same order in both. -/
theorem applyPasses_of_perm {passes passes' : List Pass}
    (hvalid : Pass.checkOrder passes = .ok ()) (hvalid' : Pass.checkOrder passes' = .ok ())
    (hperm : passes.Perm passes')
    (horder : ∀ pair ∈ Pass.orderSensitive, [pair.1, pair.2].Sublist (passes.map Pass.kind) ↔
      [pair.1, pair.2].Sublist (passes'.map Pass.kind)) (t : Tree) :
    (t.applyPasses passes).tree = (t.applyPasses passes').tree ∧
      ∃ n, (t.applyPasses passes).result = .ok n ∧ (t.applyPasses passes').result = .ok n := by
  have hnodup := (Pass.checkOrder_eq_ok_iff.1 hvalid).1
  have hnodup' := (Pass.checkOrder_eq_ok_iff.1 hvalid').1
  have hsame : Pass.SameRun passes passes' := by
    refine .of_perm hperm hnodup.of_map fun a b hab hba => ?_
    have hkinds : [a.kind, b.kind].Sublist (passes.map Pass.kind) := hab.map Pass.kind
    have hkinds' : [b.kind, a.kind].Sublist (passes'.map Pass.kind) := hba.map Pass.kind
    refine Pass.interchange_of_not_mem ?_ (fun hmem => ?_) fun hmem => ?_
    · have hne := hnodup'.sublist hkinds'
      simpa using hne
    · exact Pass.not_sublist_swap hnodup hkinds ((horder _ hmem).2 hkinds')
    · exact Pass.not_sublist_swap hnodup' hkinds' ((horder _ hmem).1 hkinds)
  rw [applyPasses_of_checkOrder hvalid, applyPasses_of_checkOrder hvalid', ← (hsame t).2]
  obtain ⟨n, hn⟩ := Pass.exists_result_runInOrder passes t
  exact ⟨(hsame t).1, n, hn, hn⟩

/-- All passes in an order that is not the usual one but does the same. -/
def rearranged : List Pass :=
  [.classifyEnums, .promoteFunctions false, .inheritDefaults, .publishNestedTypes, .dropDefaults,
    .separateNames, .leaveHandlesToHand]

theorem applyPasses_rearranged_overrideTree :
    (Pass.overrideTree.applyPasses rearranged).tree = inheritedTree := by
  rw [← applyPasses_overrideTree]
  exact (applyPasses_of_perm (by decide) (by decide) (by decide) (by decide) Pass.overrideTree).1

end Tree

end Bindery
