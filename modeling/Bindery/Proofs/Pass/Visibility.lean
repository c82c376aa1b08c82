import Bindery.Pass.Visibility
import Bindery.Proofs.Sweep

/-!
# No mentioned nested type stays protected

The rounds end in a tree without a protected nested type that the public interface mentions
(`published_publishRounds`, by induction over the rounds).  Hiding declarations makes the interface
mention less, so this stays so as long as no access level changes and nothing is added
(`Published.of_develops`).
-/

namespace Bindery.Tree

variable {t u : Tree} {id : Nat}

/-! ## What is mentioned -/

/-- What visible declarations of the interface refer to is mentioned, in whatever order. -/
lemma mem_mentioned_iff {usr : Usr} :
    usr ∈ t.mentioned ↔ ∃ id < t.size, (t.decl id).kind.isInterface = true ∧
      t.isVisible id = true ∧ usr ∈ (t.decl id).references := by
  simp only [mentioned, List.mem_flatMap, List.mem_filter, mem_walk_iff, Bool.and_eq_true,
    and_assoc]

lemma mem_mentionedNestedTypes_iff :
    id ∈ t.mentionedNestedTypes ↔
      id < t.size ∧ t.isTypeInClass id = true ∧ (t.decl id).usr ∈ t.mentioned := by
  simp only [mentionedNestedTypes, List.mem_filter, mem_walk_iff, Bool.and_eq_true,
    List.contains_iff_mem]

/-- Hiding declarations takes away what is mentioned.  New methods could add to it, so there must be
none. -/
lemma mem_mentioned_of_develops {free : List Field} (hdev : t.Develops free u)
    (hsize : u.size = t.size) (hfree : .access ∉ free) {usr : Usr} (h : usr ∈ u.mentioned) :
    usr ∈ t.mentioned := by
  obtain ⟨id, hid, hinterface, hvisible, husr⟩ := mem_mentioned_iff.1 h
  rw [hsize] at hid
  rw [hdev.kind_eq hid] at hinterface
  rw [hdev.reads Decl.references Decl.references_shape hid] at husr
  exact mem_mentioned_iff.2 ⟨id, hid, hinterface, hdev.isVisible_of hfree hid hvisible, husr⟩

/-- A nested type has been one before, and was not hidden then either. -/
lemma isTypeInClass_of_develops {free : List Field} (hdev : t.Develops free u) (hid : id < t.size)
    (h : u.isTypeInClass id = true) : t.isTypeInClass id = true := by
  simp only [isTypeInClass, Bool.and_eq_true, Bool.not_eq_true', hdev.kind_eq hid,
    hdev.parent?_eq hid] at h ⊢
  refine ⟨⟨h.1.1, hdev.open_of hid h.1.2⟩, ?_⟩
  cases hp : t.parent? id with
  | none => simp [hp] at h
  | some p =>
    have hlt : p < t.size := Nat.lt_trans (parent?_lt hp) hid
    simpa [hp, hdev.kind_eq hlt] using h.2

/-! ## The pass -/

/-- No nested type that the public interface mentions is protected. -/
def Published (t : Tree) : Prop := ∀ id ∈ t.mentionedNestedTypes, (t.decl id).access ≠ .isProtected

/-- Types stay public as long as nothing but this pass changes access and no method is added. -/
theorem Published.of_develops {free : List Field} (h : t.Published) (hdev : t.Develops free u)
    (hsize : u.size = t.size) (hfree : .access ∉ free) : u.Published := by
  intro id hid
  obtain ⟨hlt, hnested, husr⟩ := mem_mentionedNestedTypes_iff.1 hid
  rw [hsize] at hlt
  rw [hdev.reads Decl.usr Decl.usr_shape hlt] at husr
  have haccess : (t.decl id).access = (u.decl id).access := hdev.same .access hfree id hlt
  rw [← haccess]
  exact h id (mem_mentionedNestedTypes_iff.2 ⟨hlt, isTypeInClass_of_develops hdev hlt hnested,
    mem_mentioned_of_develops hdev hsize hfree husr⟩)

lemma develops_publish (t : Tree) (id : Nat) : t.Develops [.access] (t.publish id).tree :=
  develops_edit (show Edit.Fits (.setAccess _) _ from trivial)

lemma size_publish (t : Tree) (id : Nat) : (t.publish id).tree.size = t.size :=
  size_edit t id _

/-- The private types that a round reports. -/
def unreported (t : Tree) (reported : List Nat) : List Nat :=
  t.mentionedNestedTypes.filter fun id => (t.decl id).access = .isPrivate && !reported.contains id

lemma publishRounds_eq_of_nil {reported : List Nat}
    (h : (t.mentionedNestedTypes.filter fun id => (t.decl id).access = .isProtected) = []) :
    t.publishRounds reported = ⟨t, 0, (t.unreported reported).map t.privateTypeWarning⟩ := by
  rw [publishRounds]
  split
  · rfl
  · next id ids hcons =>
    rw [h] at hcons
    exact absurd hcons (by simp)

/-- A round that finds something is followed by the others. -/
lemma publishRounds_eq_of_cons (reported : List Nat) {id : Nat} {ids : List Nat}
    (h : (t.mentionedNestedTypes.filter fun id => (t.decl id).access = .isProtected) = id :: ids) :
    t.publishRounds reported =
      (Progress.andThen ⟨t, 0, (t.unreported reported).map t.privateTypeWarning⟩
        (Progress.sweep publish (id :: ids))).andThen
          (publishRounds · (reported ++ t.unreported reported)) := by
  rw [publishRounds]
  split
  · next hnil =>
    rw [h] at hnil
    exact absurd hnil (by simp)
  · next i is hcons =>
    cases hcons.symm.trans h
    simp only [Progress.andThen, Nat.zero_add]
    rfl

/-- A round that finds nothing is the last. -/
lemma publishRounds_of_nil {reported : List Nat}
    (h : (t.mentionedNestedTypes.filter fun id => (t.decl id).access = .isProtected) = []) :
    (t.publishRounds reported).Idle t := by
  rw [publishRounds_eq_of_nil h]
  exact ⟨rfl, rfl⟩

lemma publishRounds_of_cons (reported : List Nat) {id : Nat} {ids : List Nat}
    (h : (t.mentionedNestedTypes.filter fun id => (t.decl id).access = .isProtected) = id :: ids) :
    (t.publishRounds reported).tree = ((Progress.sweep publish (id :: ids) t).tree.publishRounds
        (reported ++ t.unreported reported)).tree ∧
      (t.publishRounds reported).changes = (Progress.sweep publish (id :: ids) t).changes +
        ((Progress.sweep publish (id :: ids) t).tree.publishRounds
          (reported ++ t.unreported reported)).changes := by
  rw [publishRounds_eq_of_cons reported h, Progress.changes_andThen, Progress.changes_andThen,
    Nat.zero_add]
  exact ⟨rfl, rfl⟩

/-- The rounds end with one that finds nothing, which is what is asked for. -/
theorem published_publishRounds (t : Tree) (reported : List Nat) :
    (t.publishRounds reported).tree.Published := by
  induction t, reported using publishRounds.induct with
  | case1 t reported found hnil =>
    rw [(publishRounds_of_nil hnil).1]
    intro id hid hprotected
    exact absurd (decide_eq_true hprotected) (List.filter_eq_nil_iff.1 hnil id hid)
  | case2 t reported found secret id ids hcons published ih =>
    rw [(publishRounds_of_cons reported hcons).1]
    exact ih

lemma develops_publishRounds (t : Tree) (reported : List Nat) :
    t.Develops [.access] (t.publishRounds reported).tree ∧
      (t.publishRounds reported).tree.size = t.size := by
  induction t, reported using publishRounds.induct with
  | case1 t reported found hnil =>
    rw [(publishRounds_of_nil hnil).1]
    exact ⟨.refl _ t, rfl⟩
  | case2 t reported found secret id ids hcons published ih =>
    rw [(publishRounds_of_cons reported hcons).1]
    exact ⟨(Progress.sweep_develops develops_publish _ t).trans ih.1,
      ih.2.trans (Progress.size_sweep size_publish _ t)⟩

lemma develops_publishNestedTypes (t : Tree) : t.Develops [.access] t.publishNestedTypes.tree :=
  (develops_publishRounds t []).1

lemma size_publishNestedTypes (t : Tree) : t.publishNestedTypes.tree.size = t.size :=
  (develops_publishRounds t []).2

lemma published_publishNestedTypes (t : Tree) : t.publishNestedTypes.tree.Published :=
  published_publishRounds t []

/-- Where no protected type is mentioned the first round is the last. -/
lemma Published.idle (h : t.Published) : t.publishNestedTypes.Idle t := by
  refine publishRounds_of_nil (List.filter_eq_nil_iff.2 fun id hid => ?_)
  rw [decide_eq_true_eq]
  exact h id hid

end Bindery.Tree
