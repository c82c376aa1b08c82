import Mathlib.Data.List.Pairwise
import Bindery.Proofs.Pass.Run

/-!
# What a valid order guarantees

A valid list of passes may have them in many orders, and further passes may follow one whose output
they change.  Still the tree at the end is as two of the passes left it, wherever they stand in the
list: names are told apart (`NamesApart`), and the interface mentions no protected nested type
(`ProtectedUnused`).  Only a promotion could spoil either, by adding a method, and `checkOrder`
refuses a list in which one comes later (`settled_of_checkOrder`).
-/

namespace Bindery

namespace Pass

variable {passes : List Pass}

/-- In a valid list the only pass that a later one can disturb is the inheritance of default
values. -/
lemma not_disturbs_of_checkOrder (hvalid : checkOrder passes = .ok ()) {pass later : Pass}
    (horder : [pass, later].Sublist passes) (hkind : pass.kind ≠ .inheritDefaults) :
    ¬ Disturbs later.kind pass.kind := by
  rintro ⟨hlater, hearlier⟩
  obtain ⟨hnodup, hdependencies⟩ := checkOrder_eq_ok_iff.1 hvalid
  have hkinds : [pass.kind, later.kind].Sublist (passes.map kind) := horder.map kind
  have hdependency : (PassKind.promoteFunctions, pass.kind) ∈ dependencies := by
    rcases hearlier with h | h | h
    · rw [h]
      decide
    · rw [h]
      decide
    · exact absurd h hkind
  have hne : PassKind.promoteFunctions ≠ pass.kind := by
    rcases hearlier with h | h | h <;> rw [h] <;> decide
  have hforward := hdependencies _ hdependency
  rw [hlater] at hkinds
  rw [(isReversed_iff hne hnodup).2 hkinds] at hforward
  exact absurd hforward (by simp)

/-- Whatever else a valid list does, at its end a pass of it has nothing left to do, unless that
pass is the inheritance of default values. -/
theorem settled_of_checkOrder (hvalid : checkOrder passes = .ok ()) {pass : Pass}
    (hpass : pass ∈ passes) (hkind : pass.kind ≠ .inheritDefaults) (t : Tree) :
    Settled pass.kind (runInOrder passes t).tree := by
  obtain ⟨front, rest, rfl⟩ := List.append_of_mem hpass
  rw [tree_runInOrder_append, (runInOrder_cons pass rest _).1]
  refine (settled_run pass _).runInOrder fun later hlater => ?_
  refine not_disturbs_of_checkOrder hvalid ?_ hkind
  exact ((List.singleton_sublist.2 hlater).cons_cons pass).trans (List.sublist_append_right _ _)

end Pass

namespace Tree

variable {t : Tree}

/-! ## Names -/

/-- Of the declarations of a scope that are not kept out, two have the same name only if they are
functions or methods with different parameters. -/
def NamesApart (t : Tree) : Prop :=
  ∀ scope c d, c ≠ d → t.parent? c = some scope → t.parent? d = some scope →
    (t.decl c).ignored = false → (t.decl d).ignored = false →
    (t.decl c).name = (t.decl d).name →
      ∃ a b, (t.decl c).signature? = some a ∧ (t.decl d).signature? = some b ∧
        a.overloadKey ≠ b.overloadKey

instance (t : Tree) : Std.Symm fun c d => (t.useAt c).clashes (t.useAt d) = false where
  symm _ _ h := NameUse.clashes_eq_false_iff.2 fun hname => by
    obtain ⟨k, l, hk, hl, hne⟩ := NameUse.clashes_eq_false_iff.1 h hname.symm
    exact ⟨l, k, hl, hk, hne.symm⟩

lemma Separated.namesApart (h : t.Separated) : t.NamesApart := by
  intro scope c d hne hc hd hignored hignored' hname
  have hapart := (List.pairwise_map.1 (h scope).1).forall (mem_namedChildren_iff.2 ⟨hc, hignored⟩)
    (mem_namedChildren_iff.2 ⟨hd, hignored'⟩) hne
  obtain ⟨k, l, hk, hl, hkeys⟩ := NameUse.clashes_eq_false_iff.1 hapart hname
  obtain ⟨a, ha, rfl⟩ := Option.map_eq_some_iff.1 hk
  obtain ⟨b, hb, rfl⟩ := Option.map_eq_some_iff.1 hl
  exact ⟨a, b, ha, hb, hkeys⟩

/-! ## Protected types -/

/-- A protected type directly inside a class is mentioned by no visible declaration, unless it is
kept out. -/
def ProtectedUnused (t : Tree) : Prop :=
  ∀ id p, t.parent? id = some p → (t.decl p).kind = .classType → (t.decl id).kind.isType = true →
    (t.decl id).ignored = false → (t.decl id).access = .isProtected →
    ∀ i, (t.decl i).kind.isInterface = true → t.isVisible i = true →
      (t.decl id).usr ∉ (t.decl i).references

lemma Published.protectedUnused (h : t.Published) : t.ProtectedUnused := by
  intro id p hp hclass htype hignored hprotected i hinterface hvisible hmentions
  have hi : i < t.size := lt_size_of_kind fun hkind => by
    rw [hkind] at hinterface
    exact absurd hinterface (by decide)
  have hnested : t.isTypeInClass id = true := by simp [isTypeInClass, htype, hignored, hp, hclass]
  have hmentioned : (t.decl id).usr ∈ t.mentioned :=
    mem_mentioned_iff.2 ⟨i, hi, hinterface, hvisible, hmentions⟩
  exact h id (mem_mentionedNestedTypes_iff.2 ⟨lt_size_of_parent? hp, hnested, hmentioned⟩)
    hprotected

/-! ## Any valid list -/

/-- A valid list of passes never fails, and what two of its passes are there for holds at the end of
the list, wherever they stand in it. -/
theorem guarantees_of_checkOrder {passes : List Pass} (hvalid : Pass.checkOrder passes = .ok ())
    (t : Tree) :
    (∃ n, (t.applyPasses passes).result = .ok n) ∧
      (.separateNames ∈ passes → (t.applyPasses passes).tree.NamesApart) ∧
      (.publishNestedTypes ∈ passes → (t.applyPasses passes).tree.ProtectedUnused) := by
  rw [applyPasses_of_checkOrder hvalid]
  refine ⟨Pass.exists_result_runInOrder passes t, fun hpass => ?_, fun hpass => ?_⟩
  · exact Separated.namesApart (Pass.settled_of_checkOrder hvalid hpass (by decide) t)
  · exact Published.protectedUnused (Pass.settled_of_checkOrder hvalid hpass (by decide) t)

/-- A header with two overloads, and a class with a protected enumeration that nothing mentions. -/
def overloadTree : Tree :=
  Tree.empty.changed [
    .insert none (.new ⟨"tu:a.h"⟩ "a.h" .translationUnit),
    .insert (some 0) (.new ⟨"f1"⟩ "f" (.function ⟨.void, [⟨"x", .builtin "int", none⟩], false⟩)),
    .insert (some 0) (.new ⟨"f2"⟩ "f" (.function ⟨.void, [⟨"x", .builtin "char", none⟩], false⟩)),
    .insert (some 0) (.new ⟨"C"⟩ "C" (.classType true [])),
    .insert (some 3) { Decl.new ⟨"E"⟩ "E" (.enumType [] false) with access := .isProtected }]

theorem guarantees_overloadTree :
    let u := (overloadTree.applyPasses Pass.standard).tree
    (∃ a b, (u.decl 1).signature? = some a ∧ (u.decl 2).signature? = some b ∧
      a.overloadKey ≠ b.overloadKey) ∧ (u.decl 4).usr ∉ (u.decl 1).references := by
  obtain ⟨-, hnames, hprotected⟩ := guarantees_of_checkOrder Pass.checkOrder_standard overloadTree
  exact ⟨hnames (by decide) 0 1 2 (by decide) (by decide +kernel) (by decide +kernel)
      (by decide +kernel) (by decide +kernel) (by decide +kernel),
    hprotected (by decide) 4 3 (by decide +kernel) (by decide +kernel) (by decide +kernel)
      (by decide +kernel) (by decide +kernel) 1 (by decide +kernel) (by decide +kernel)⟩

end Tree

end Bindery
