import Bindery.Proofs.Pass.Visibility

/-!
# When a mentioned type is accessible

The pass makes a nested type public if the interface mentions that very type.  To be accessible the
type needs the classes around it to be public as well, and the pass looks at each of them in the
same way: it stays protected unless it is itself mentioned.  So a type that the interface mentions
is accessible exactly if every protected class around it is mentioned too
(`isVisible_iff_mentioned`), and there are types for which this fails
(`not_isVisible_unmentionedTree`).

The rounds only ever make declarations public (`Opened`), so the interface mentions more after each
of them, and what was made public in an early round is still mentioned at the end
(`mem_mentionedNestedTypes_of_access_ne`).
-/

namespace Bindery.Tree

variable {t u v : Tree} {id : Nat}

/-! ## Making declarations public -/

/-- `u` is `t` with some declarations made public. -/
structure Opened (t u : Tree) : Prop where
  size_eq : u.size = t.size
  parent?_eq : ∀ id, u.parent? id = t.parent? id
  decl_cases : ∀ id, u.decl id = t.decl id ∨ u.decl id = { t.decl id with access := .isPublic }

namespace Opened

lemma refl (t : Tree) : Opened t t := ⟨rfl, fun _ => rfl, fun _ => .inl rfl⟩

lemma trans (htu : Opened t u) (huv : Opened u v) : Opened t v where
  size_eq := huv.size_eq.trans htu.size_eq
  parent?_eq id := (huv.parent?_eq id).trans (htu.parent?_eq id)
  decl_cases id := by
    rcases htu.decl_cases id with htu | htu <;> rcases huv.decl_cases id with huv | huv
    · exact .inl (huv.trans htu)
    · exact .inr (by rw [huv, htu])
    · exact .inr (huv.trans htu)
    · exact .inr (by rw [huv, htu])

/-- What does not read the access level reads the same. -/
lemma reads {α : Type} (h : Opened t u) (read : Decl → α)
    (hread : ∀ d : Decl, read { d with access := .isPublic } = read d) (id : Nat) :
    read (u.decl id) = read (t.decl id) := by
  rcases h.decl_cases id with hdecl | hdecl <;> rw [hdecl]
  exact hread _

lemma access_cases (h : Opened t u) (id : Nat) :
    (u.decl id).access = (t.decl id).access ∨ (u.decl id).access = .isPublic := by
  rcases h.decl_cases id with hdecl | hdecl <;> rw [hdecl]
  · exact .inl rfl
  · exact .inr rfl

lemma lineage_eq (h : Opened t u) (id : Nat) : u.lineage id = t.lineage id :=
  lineage_congr fun e _ => h.parent?_eq e

lemma isVisible_of (h : Opened t u) (hvisible : t.isVisible id = true) :
    u.isVisible id = true := by
  rw [isVisible, List.all_eq_true] at hvisible ⊢
  rw [h.lineage_eq]
  intro e he
  have hexposed := hvisible e he
  simp only [Decl.isExposed, Bool.and_eq_true, Bool.not_eq_true', decide_eq_true_eq] at hexposed ⊢
  refine ⟨(h.reads Decl.ignored (fun _ => rfl) e).trans hexposed.1, ?_⟩
  rcases h.access_cases e with haccess | haccess
  · exact haccess.trans hexposed.2
  · exact haccess

lemma mem_mentioned_of (h : Opened t u) {usr : Usr} (hmem : usr ∈ t.mentioned) :
    usr ∈ u.mentioned := by
  obtain ⟨i, hi, hinterface, hvisible, husr⟩ := mem_mentioned_iff.1 hmem
  rw [← h.reads Decl.kind (fun _ => rfl)] at hinterface
  rw [← h.reads Decl.references (fun _ => rfl)] at husr
  exact mem_mentioned_iff.2 ⟨i, h.size_eq ▸ hi, hinterface, h.isVisible_of hvisible, husr⟩

lemma isTypeInClass_eq (h : Opened t u) (id : Nat) :
    u.isTypeInClass id = t.isTypeInClass id := by
  have hkind := fun i => h.reads Decl.kind (fun _ => rfl) i
  rw [isTypeInClass, isTypeInClass, h.parent?_eq, hkind, h.reads Decl.ignored (fun _ => rfl)]
  simp only [hkind]

lemma mem_mentionedNestedTypes_of (h : Opened t u) (hmem : id ∈ t.mentionedNestedTypes) :
    id ∈ u.mentionedNestedTypes := by
  obtain ⟨hid, hnested, hmentioned⟩ := mem_mentionedNestedTypes_iff.1 hmem
  refine mem_mentionedNestedTypes_iff.2 ⟨h.size_eq ▸ hid, ?_, ?_⟩
  · rw [h.isTypeInClass_eq, hnested]
  · rw [h.reads Decl.usr (fun _ => rfl)]
    exact h.mem_mentioned_of hmentioned

end Opened

/-! ## The rounds -/

lemma opened_publish (t : Tree) (id : Nat) : Opened t (t.publish id).tree where
  size_eq := size_publish t id
  parent?_eq i := parent?_edit t id _ i
  decl_cases i := by
    rw [publish, Progress.edited, decl_edit]
    split
    · exact .inr rfl
    · exact .inl rfl

lemma opened_sweep_publish (t : Tree) (ids : List Nat) :
    Opened t (Progress.sweep publish ids t).tree :=
  Progress.sweep_invariant (I := Opened t) (fun id _ u h => h.trans (opened_publish u id)) (.refl t)

lemma decl_sweep_publish_of_not_mem (t : Tree) {ids : List Nat} (h : id ∉ ids) :
    (Progress.sweep publish ids t).tree.decl id = t.decl id := by
  refine Progress.sweep_invariant (I := fun u => u.decl id = t.decl id) (fun i hi u hu => ?_) rfl
  have hne : ¬(i = id ∧ id < u.size) := fun heq => h (heq.1 ▸ hi)
  rw [publish, Progress.edited, decl_edit, if_neg hne, hu]

lemma opened_publishRounds (t : Tree) (reported : List Nat) :
    Opened t (t.publishRounds reported).tree := by
  induction t, reported using publishRounds.induct with
  | case1 t reported found hnil =>
    rw [(publishRounds_of_nil hnil).1]
    exact .refl t
  | case2 t reported found secret id ids hcons published ih =>
    rw [(publishRounds_of_cons reported hcons).1]
    exact (opened_sweep_publish t (id :: ids)).trans ih

/-- What has been made public is a nested type that is mentioned at the end. -/
theorem mem_mentionedNestedTypes_of_access_ne (t : Tree) (reported : List Nat)
    (h : ((t.publishRounds reported).tree.decl id).access ≠ (t.decl id).access) :
    id ∈ (t.publishRounds reported).tree.mentionedNestedTypes := by
  induction t, reported using publishRounds.induct with
  | case1 t reported found hnil =>
    rw [(publishRounds_of_nil hnil).1] at h
    exact absurd rfl h
  | case2 t reported found secret first ids hcons published ih =>
    have hopened := opened_publishRounds t reported
    -- this round has made it public, for it was mentioned, or a later round has
    by_cases hround : id ∈ first :: ids
    · refine hopened.mem_mentionedNestedTypes_of ?_
      rw [← hcons] at hround
      exact (List.mem_filter.1 hround).1
    · rw [(publishRounds_of_cons reported hcons).1] at h ⊢
      rw [← decl_sweep_publish_of_not_mem t hround] at h
      exact ih h

/-! ## Accessible types -/

/-- The protected declarations that are left are those that the interface does not mention, or that
are no nested types. -/
lemma isProtected_publishNestedTypes_iff (t : Tree) (id : Nat) :
    (t.publishNestedTypes.tree.decl id).access = .isProtected ↔
      (t.decl id).access = .isProtected ∧
        id ∉ t.publishNestedTypes.tree.mentionedNestedTypes := by
  constructor
  · intro hprotected
    refine ⟨?_, fun hmem => published_publishNestedTypes t id hmem hprotected⟩
    rcases (opened_publishRounds t []).access_cases id with haccess | haccess
    · exact haccess.symm.trans hprotected
    · exact absurd (hprotected.symm.trans haccess) (by decide)
  · rintro ⟨hbefore, hunmentioned⟩
    by_contra hchanged
    refine hunmentioned (mem_mentionedNestedTypes_of_access_ne t [] fun hsame => ?_)
    exact hchanged (hsame.trans hbefore)

/-- A nested type that the interface mentions, and that lies in nothing private or hidden, is
accessible after the pass exactly if every protected declaration around it is a nested type that the
interface mentions as well. -/
theorem isVisible_iff_mentioned (t : Tree)
    (hmentioned : id ∈ t.publishNestedTypes.tree.mentionedNestedTypes)
    (hopen : ∀ e ∈ t.publishNestedTypes.tree.lineage id,
      (t.publishNestedTypes.tree.decl e).ignored = false ∧
        (t.publishNestedTypes.tree.decl e).access ≠ .isPrivate) :
    t.publishNestedTypes.tree.isVisible id = true ↔
      ∀ e ∈ t.publishNestedTypes.tree.lineage id, e ≠ id → (t.decl e).access = .isProtected →
        e ∈ t.publishNestedTypes.tree.mentionedNestedTypes := by
  rw [isVisible, List.all_eq_true]
  constructor
  · intro hvisible e he _ hbefore
    by_contra hunmentioned
    have hprotected := (isProtected_publishNestedTypes_iff t e).2 ⟨hbefore, hunmentioned⟩
    have hexposed := hvisible e he
    simp [Decl.isExposed, hprotected] at hexposed
  · intro hsurroundings e he
    obtain ⟨hignored, hprivate⟩ := hopen e he
    have hprotected : (t.publishNestedTypes.tree.decl e).access ≠ .isProtected := by
      intro hprotected
      obtain ⟨hbefore, hunmentioned⟩ := (isProtected_publishNestedTypes_iff t e).1 hprotected
      by_cases hid : e = id
      · exact hunmentioned (hid ▸ hmentioned)
      · exact hunmentioned (hsurroundings e he hid hbefore)
    have hpublic : (t.publishNestedTypes.tree.decl e).access = .isPublic := by
      cases haccess : (t.publishNestedTypes.tree.decl e).access with
      | isPublic => rfl
      | isProtected => exact absurd haccess hprotected
      | isPrivate => exact absurd haccess hprivate
    simp [Decl.isExposed, hignored, hpublic]

/-- A class with a protected class in it, and a further class in that one.  Of the two properties of
the outer class one points to the innermost. -/
def nestedTree (access : Access) (type : QualType) : Tree :=
  Tree.empty.changed [
    .insert none (.new ⟨"tu:a.h"⟩ "a.h" .translationUnit),
    .insert (some 0) (.new ⟨"Widget"⟩ "Widget" (.classType true [])),
    .insert (some 1) { Decl.new ⟨"Inner"⟩ "Inner" (.classType true []) with
      access := .isProtected },
    .insert (some 2) { Decl.new ⟨"Deep"⟩ "Deep" (.classType true []) with access := access },
    .insert (some 1) (.new ⟨"p"⟩ "p"
      (.property (.pointerTo (.named "Deep" false (.declared ⟨"Deep"⟩))) false)),
    .insert (some 1) (.new ⟨"q"⟩ "q" (.property type false))]

/-- Both inner classes are protected, and both are mentioned. -/
def mentionedTree : Tree := nestedTree .isProtected (.named "Inner" false (.declared ⟨"Inner"⟩))

/-- The innermost class is public, and nothing mentions the class between. -/
def unmentionedTree : Tree := nestedTree .isPublic (.builtin "int")

theorem isVisible_mentionedTree : mentionedTree.publishNestedTypes.tree.isVisible 3 = true := by
  refine (isVisible_iff_mentioned mentionedTree ?_ ?_).2 ?_ <;> decide +kernel

/-- The innermost class stays out of reach, although it is public itself and a public property
points to it. -/
theorem not_isVisible_unmentionedTree :
    3 ∈ unmentionedTree.publishNestedTypes.tree.mentionedNestedTypes ∧
      (∀ e ∈ unmentionedTree.publishNestedTypes.tree.lineage 3,
        (unmentionedTree.publishNestedTypes.tree.decl e).ignored = false ∧
          (unmentionedTree.publishNestedTypes.tree.decl e).access ≠ .isPrivate) ∧
      unmentionedTree.publishNestedTypes.tree.isVisible 3 = false := by
  decide +kernel

end Bindery.Tree
