import Bindery.Pass.PointerTypedefs
import Bindery.Proofs.Sweep

/-!
# Every property that points to a handle is marked

Whether a type points to a handle depends on typedefs, which never change, and on what its
identifiers name.  A later method may come to be named where nothing was; that can only make a
handle less opaque (`pointsToHandle_of_develops`).  So nothing done after the pass gives it more to
do (`HandlesMarked.of_develops`).
-/

namespace Bindery.Tree

variable {t u : Tree} {id : Nat}

/-- No property that points to a handle is without its mark. -/
def HandlesMarked (t : Tree) : Prop := ∀ id, (t.isUnmarkedHandle id).value = false

/-- What points to a handle after a development has done so before: a new method may come to be what
an opaque type names, but nothing becomes opaque. -/
theorem pointsToHandle_of_develops {free : List Field} (hdev : t.Develops free u) {type : QualType}
    (h : (u.pointsToHandle type).value = true) : (t.pointsToHandle type).value = true := by
  unfold pointsToHandle at h ⊢
  cases hpointee : type.pointee? with
  | none => simp [hpointee] at h
  | some handle =>
    simp only [hpointee, hdev.typedefTarget?_eq, hdev.behindTypedefs_eq] at h ⊢
    split at h
    · simp at h
    · next htypedef =>
      rw [if_neg htypedef, Logged.value_bind]
      rw [Logged.value_bind] at h
      cases hinner : (t.behindTypedefs handle).value.pointee? with
      | none => simp [hinner] at h
      | some inner =>
        rw [hinner] at h
        exact hdev.isOpaque_of h

/-- A handle to be marked is a property of the right type without the mark. -/
lemma isUnmarkedHandle_iff :
    (t.isUnmarkedHandle id).value = true ↔
      ∃ type, (t.decl id).payload = .property type false ∧
        (t.pointsToHandle type).value = true := by
  unfold isUnmarkedHandle
  constructor
  · intro h
    split at h
    · next type hpayload => exact ⟨type, hpayload, h⟩
    · simp at h
  · rintro ⟨type, hpayload, h⟩
    rw [hpayload]
    exact h

lemma isUnmarkedHandle_of_develops {free : List Field} (hdev : t.Develops free u)
    (h : (u.isUnmarkedHandle id).value = true) : (t.isUnmarkedHandle id).value = true := by
  obtain ⟨type, hpayload, hpoints⟩ := isUnmarkedHandle_iff.1 h
  have hkind : (u.decl id).kind = .property := by rw [Decl.kind, hpayload]; rfl
  have hid : id < t.size :=
    hdev.lt_size_of_kind_ne (lt_size_of_kind (by rw [hkind]; decide)) (by rw [hkind]; decide)
  refine isUnmarkedHandle_iff.2 ⟨type, ?_, pointsToHandle_of_develops hdev hpoints⟩
  have hshape := congrArg Decl.payload (hdev.shape_eq hid)
  have hmanual := hdev.manual_of hid
  revert hshape hmanual
  simp only [Decl.shape, Decl.isManual, hpayload]
  cases (t.decl id).payload <;> simp [Payload.shape]
  rintro rfl hmanual
  exact ⟨rfl, hmanual⟩

lemma isUnmarkedHandle_eq_false_of_develops {free : List Field} (hdev : t.Develops free u)
    (h : (t.isUnmarkedHandle id).value = false) : (u.isUnmarkedHandle id).value = false := by
  by_contra hunmarked
  rw [Bool.not_eq_false] at hunmarked
  rw [isUnmarkedHandle_of_develops hdev hunmarked] at h
  exact absurd h (by simp)

/-- No development makes a handle of anything, or takes a mark off. -/
theorem HandlesMarked.of_develops {free : List Field} (h : t.HandlesMarked)
    (hdev : t.Develops free u) : u.HandlesMarked :=
  fun id => isUnmarkedHandle_eq_false_of_develops hdev (h id)

lemma develops_leaveToHand (t : Tree) (id : Nat) :
    t.Develops [.ignored, .manual] (t.leaveToHand id).tree := by
  have hmanual : t.Develops [.manual] (t.edit id .requireManual) :=
    develops_edit (show Edit.Fits .requireManual _ from trivial)
  exact (hmanual.mono (by simp)).trans ((develops_ignore _ id).mono (by simp))

lemma size_leaveToHand (t : Tree) (id : Nat) : (t.leaveToHand id).tree.size = t.size := by
  simp [leaveToHand]

/-- The mark is there to stay, so the property is not found again. -/
lemma isUnmarkedHandle_leaveToHand (t : Tree) (id : Nat) :
    ((t.leaveToHand id).tree.isUnmarkedHandle id).value = false := by
  by_contra hunmarked
  rw [Bool.not_eq_false] at hunmarked
  obtain ⟨type, hpayload, -⟩ := isUnmarkedHandle_iff.1 hunmarked
  have hid : id < (t.leaveToHand id).tree.size :=
    lt_size_of_kind (by simp [Decl.kind, hpayload, Payload.kind])
  simp only [leaveToHand, size_edit] at hid
  simp only [leaveToHand, decl_edit, size_edit, hid, and_self, if_true] at hpayload
  revert hpayload
  simp only [Edit.apply, Edit.applyPayload]
  cases (t.decl id).payload <;> simp

lemma develops_leaveHandlesToHand (t : Tree) :
    t.Develops [.ignored, .manual] t.leaveHandlesToHand.tree :=
  Progress.sweep_develops develops_leaveToHand _ t

lemma size_leaveHandlesToHand (t : Tree) : t.leaveHandlesToHand.tree.size = t.size :=
  Progress.size_sweep size_leaveToHand _ t

lemma handlesMarked_leaveHandlesToHand (t : Tree) : t.leaveHandlesToHand.tree.HandlesMarked := by
  intro id
  by_contra hunmarked
  rw [Bool.not_eq_false] at hunmarked
  have hbefore := isUnmarkedHandle_of_develops (develops_leaveHandlesToHand t) hunmarked
  have hid : id < t.size := by
    obtain ⟨type, hpayload, -⟩ := isUnmarkedHandle_iff.1 hbefore
    exact lt_size_of_kind (by simp [Decl.kind, hpayload, Payload.kind])
  have hmem : id ∈ (Logged.filter t.isUnmarkedHandle t.walk).value := by
    rw [Logged.value_filter]
    exact List.mem_filter.2 ⟨mem_walk_iff.2 hid, hbefore⟩
  have hafter : (t.leaveHandlesToHand.tree.isUnmarkedHandle id).value = false := by
    refine Progress.sweep_establishes
      (Q := fun t id => (t.isUnmarkedHandle id).value = false) isUnmarkedHandle_leaveToHand ?_ id
      hmem
    exact fun t id i => isUnmarkedHandle_eq_false_of_develops (develops_leaveToHand t id)
  rw [hafter] at hunmarked
  exact absurd hunmarked (by simp)

/-- Where all handles are marked none is found. -/
lemma HandlesMarked.idle (h : t.HandlesMarked) : t.leaveHandlesToHand.Idle t := by
  have hnone : (Logged.filter t.isUnmarkedHandle t.walk).value = [] := by
    rw [Logged.value_filter, List.filter_eq_nil_iff]
    intro id _
    rw [h id]
    simp
  have hsweep : (Progress.sweep leaveToHand [] t).Idle t := Progress.idle_unchanged t
  rwa [← hnone] at hsweep

end Bindery.Tree
