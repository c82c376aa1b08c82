import Bindery.Proofs.Pass.PointerTypedefs

/-!
# Which properties are left to be written by hand

`PointsToHandle` says of a declaration that it is a property whose type points or refers to a handle,
a typedef behind which there is a pointer or reference to something opaque.  The pass finds those
that are not marked so far, marks each and keeps it out of the output (`decl_leaveHandlesToHand`).

It goes by the mark alone: what bears the mark is taken to be kept out already.  So of the four ways
in which such a property can come, three end the same, and a property that came marked but open stays
open (`leftToHand_iff`, `not_leftToHand_brushTree`).
-/

namespace Bindery

/-- The declaration marked to be written by hand, if it is a property, and kept out. -/
def Decl.leftToHand (d : Decl) : Decl := Edit.apply .ignore (Edit.apply .requireManual d)

namespace Tree

variable {t : Tree} {type : QualType} {id : Nat}

/-! ## Handles -/

/-- Nothing is known about the values of a type: behind typedefs it is void, or it names nothing in
the tree, or a class without a definition. -/
inductive Opaque (t : Tree) (type : QualType) : Prop where
  | void (hvoid : (t.behindTypedefs type).value.isVoid = true)
  | undeclared {usr : Usr} (hnamed : (t.behindTypedefs type).value.declared? = some usr)
      (hnone : ∀ id < t.size, (t.decl id).usr ≠ usr)
  | incomplete {usr : Usr} {id : Nat}
      (hnamed : (t.behindTypedefs type).value.declared? = some usr) (hid : id < t.size)
      (husr : (t.decl id).usr = usr) (hclass : (t.decl id).kind = .classType)
      (hincomplete : (t.decl id).isCompleteClass = false)

lemma isOpaque_iff : (t.isOpaque type).value = true ↔ t.Opaque type := by
  simp only [isOpaque, Logged.value_bind, Logged.value_pure, Bool.or_eq_true]
  constructor
  · rintro (hvoid | hnamed)
    · exact .void hvoid
    · split at hnamed
      · simp at hnamed
      · next usr husr =>
        split at hnamed
        · next hget => exact .undeclared husr (get?_eq_none_iff.1 hget)
        · next id hget =>
          obtain ⟨hid, hsame⟩ := get?_eq_some hget
          simp only [Bool.and_eq_true, decide_eq_true_eq, Bool.not_eq_true'] at hnamed
          exact .incomplete husr hid hsame hnamed.1 hnamed.2
  · rintro (hvoid | ⟨hnamed, hnone⟩ | ⟨hnamed, hid, husr, hclass, hincomplete⟩)
    · exact .inl hvoid
    · right
      simp [hnamed, get?_eq_none_iff.2 hnone]
    · right
      simp [hnamed, get?_eq_some_iff.2 ⟨hid, husr⟩, hclass, hincomplete]

/-- A type that names a typedef of the tree. -/
def NamesTypedef (t : Tree) (type : QualType) : Prop :=
  ∃ usr id underlying, type.declared? = some usr ∧ id < t.size ∧ (t.decl id).usr = usr ∧
    (t.decl id).payload = .typedef underlying

lemma namesTypedef_iff : t.NamesTypedef type ↔ (t.typedefTarget? type).isNone = false := by
  rw [Option.isNone_eq_false_iff, Option.isSome_iff_exists]
  simp only [typedefTarget?, declared?, Option.bind_eq_some_iff, Option.map_eq_some_iff,
    get?_eq_some_iff]
  constructor
  · rintro ⟨usr, id, underlying, hnamed, hid, husr, hpayload⟩
    exact ⟨underlying, _, ⟨id, ⟨usr, hnamed, hid, husr⟩, rfl⟩, by rw [Decl.underlying?, hpayload]⟩
  · rintro ⟨underlying, _, ⟨id, ⟨usr, hnamed, hid, husr⟩, rfl⟩, hunderlying⟩
    refine ⟨usr, id, underlying, hnamed, hid, husr, ?_⟩
    revert hunderlying
    unfold Decl.underlying?
    cases (t.decl id).payload <;> simp

/-- A typedef behind which there is a pointer or reference to something opaque. -/
def IsHandle (t : Tree) (type : QualType) : Prop :=
  t.NamesTypedef type ∧
    ∃ inner, (t.behindTypedefs type).value.pointee? = some inner ∧ t.Opaque inner

lemma pointsToHandle_iff : (t.pointsToHandle type).value = true ↔
    ∃ handle, type.pointee? = some handle ∧ t.IsHandle handle := by
  unfold pointsToHandle IsHandle
  cases type.pointee? with
  | none => simp
  | some handle =>
    simp only [namesTypedef_iff, Option.some.injEq, exists_eq_left', ← isOpaque_iff]
    cases (t.typedefTarget? handle).isNone with
    | true => simp
    | false =>
      simp only [Bool.false_eq_true, if_false, Logged.value_bind, true_and]
      cases (t.behindTypedefs handle).value.pointee? <;> simp

/-- A property whose type is a pointer or reference to a handle. -/
def PointsToHandle (t : Tree) (id : Nat) : Prop :=
  ∃ type needsManual handle, (t.decl id).payload = .property type needsManual ∧
    type.pointee? = some handle ∧ t.IsHandle handle

lemma isUnmarkedHandle_iff_pointsToHandle :
    (t.isUnmarkedHandle id).value = true ↔
      t.PointsToHandle id ∧ (t.decl id).isManual = false := by
  simp only [isUnmarkedHandle_iff, pointsToHandle_iff, PointsToHandle, Decl.isManual]
  constructor
  · rintro ⟨type, hpayload, handle, hpointee, hhandle⟩
    exact ⟨⟨type, false, handle, hpayload, hpointee, hhandle⟩, by rw [hpayload]⟩
  · rintro ⟨⟨type, needsManual, handle, hpayload, hpointee, hhandle⟩, hmanual⟩
    rw [hpayload] at hmanual
    exact ⟨type, hmanual ▸ hpayload, handle, hpointee, hhandle⟩

/-! ## The pass -/

lemma decl_leaveToHand (t : Tree) (id i : Nat) : (t.leaveToHand id).tree.decl i =
    if id = i ∧ i < t.size then (t.decl i).leftToHand else t.decl i := by
  rw [leaveToHand, decl_edit, decl_edit, size_edit]
  split <;> rfl

/-- What points to a handle and is not marked is marked and kept out.  Nothing else is changed. -/
theorem decl_leaveHandlesToHand (t : Tree) (id : Nat) :
    t.leaveHandlesToHand.tree.decl id =
      if (t.isUnmarkedHandle id).value then (t.decl id).leftToHand else t.decl id := by
  have hnodup : (t.walk.filter fun id => (t.isUnmarkedHandle id).value).Nodup :=
    t.nodup_walk.filter _
  rw [leaveHandlesToHand, Logged.value_filter]
  refine (Progress.decl_sweep (I := fun u => u.size = t.size)
    (fun id => if id < t.size then (t.decl id).leftToHand else t.decl id)
    (fun u id hsize hsame => ?_) (fun u id hsize _ => (size_leaveToHand u id).trans hsize)
    (fun u id i hne => ?_) hnodup rfl id).trans ?_
  · rw [decl_leaveToHand, hsame, hsize]
    simp
  · rw [decl_leaveToHand, if_neg fun h => hne h.1]
  · simp only [List.mem_filter, mem_walk_iff]
    by_cases hid : id < t.size
    · simp [hid]
    · have hunmarked : (t.isUnmarkedHandle id).value = false := by
        rw [isUnmarkedHandle, decl_of_size_le (Nat.le_of_not_lt hid)]
        rfl
      simp [hid, hunmarked]

lemma PointsToHandle.kind_eq (h : t.PointsToHandle id) : (t.decl id).kind = .property := by
  obtain ⟨type, needsManual, handle, hpayload, -⟩ := h
  rw [Decl.kind, hpayload]
  rfl

lemma isManual_leftToHand {d : Decl} (h : d.kind = .property) : d.leftToHand.isManual = true := by
  revert h
  unfold Decl.leftToHand Edit.apply Edit.applyPayload Decl.kind Decl.isManual
  cases d.payload <;> simp [Payload.kind]

/-- Nothing but properties that point to a handle is changed.  Of these one ends up marked and kept
out unless it came marked and not kept out; then it is left as it is. -/
theorem leftToHand_iff (t : Tree) :
    t.leaveHandlesToHand.tree.size = t.size ∧
    ∀ id, t.leaveHandlesToHand.tree.parent? id = t.parent? id ∧
      (¬ t.PointsToHandle id → t.leaveHandlesToHand.tree.decl id = t.decl id) ∧
      (t.PointsToHandle id →
        t.leaveHandlesToHand.tree.decl id =
          (if (t.decl id).isManual then t.decl id else (t.decl id).leftToHand) ∧
        ((t.leaveHandlesToHand.tree.decl id).isManual = true ∧
            (t.leaveHandlesToHand.tree.decl id).ignored = true ↔
          ((t.decl id).isManual = true → (t.decl id).ignored = true))) := by
  refine ⟨size_leaveHandlesToHand t, fun id => ⟨?_, fun hother => ?_, fun hhandle => ?_⟩⟩
  · exact (develops_leaveHandlesToHand t).parent?_eq_of_size_eq (size_leaveHandlesToHand t) id
  · rw [decl_leaveHandlesToHand, if_neg fun h => hother (isUnmarkedHandle_iff_pointsToHandle.1 h).1]
  · have hafter : t.leaveHandlesToHand.tree.decl id =
        if (t.decl id).isManual then t.decl id else (t.decl id).leftToHand := by
      rw [decl_leaveHandlesToHand]
      cases hmanual : (t.decl id).isManual with
      | true =>
        refine if_neg fun h => ?_
        rw [(isUnmarkedHandle_iff_pointsToHandle.1 h).2] at hmanual
        exact Bool.false_ne_true hmanual
      | false => exact if_pos (isUnmarkedHandle_iff_pointsToHandle.2 ⟨hhandle, hmanual⟩)
    refine ⟨hafter, ?_⟩
    rw [hafter]
    cases hmanual : (t.decl id).isManual with
    | true => simp [hmanual]
    | false =>
      have hmarked := isManual_leftToHand hhandle.kind_eq
      have hignored : (t.decl id).leftToHand.ignored = true := rfl
      simp [hmarked, hignored]

/-- A pointer to a handle. -/
def textures : QualType := .pointerTo (.named "TextureId" false (.declared ⟨"TextureId"⟩))

/-- A handle and a class with three properties that point to it: one as it may be declared, one that
is kept out already, and one that is marked already. -/
def brushTree : Tree :=
  Tree.empty.changed [
    .insert none (.new ⟨"tu:a.h"⟩ "a.h" .translationUnit),
    .insert (some 0) (.new ⟨"TextureId"⟩ "TextureId" (.typedef (.pointerTo .void))),
    .insert (some 0) (.new ⟨"Brush"⟩ "Brush" (.classType true [])),
    .insert (some 2) (.new ⟨"current"⟩ "Current" (.property textures false)),
    .insert (some 2) { Decl.new ⟨"last"⟩ "Last" (.property textures false) with ignored := true },
    .insert (some 2) (.new ⟨"next"⟩ "Next" (.property textures true))]

lemma isHandle_brushTree :
    brushTree.IsHandle (.named "TextureId" false (.declared ⟨"TextureId"⟩)) :=
  ⟨⟨⟨"TextureId"⟩, 1, .pointerTo .void, rfl, by decide +kernel, by decide +kernel,
    by decide +kernel⟩, .void, by decide +kernel, .void (by decide +kernel)⟩

/-- The first two properties end the same. -/
theorem leftToHand_brushTree :
    (brushTree.leaveHandlesToHand.tree.decl 3).isManual = true ∧
      (brushTree.leaveHandlesToHand.tree.decl 3).ignored = true ∧
      (brushTree.leaveHandlesToHand.tree.decl 4).isManual = true ∧
      (brushTree.leaveHandlesToHand.tree.decl 4).ignored = true := by
  have hcurrent : brushTree.PointsToHandle 3 :=
    ⟨textures, false, _, by decide +kernel, rfl, isHandle_brushTree⟩
  have hlast : brushTree.PointsToHandle 4 :=
    ⟨textures, false, _, by decide +kernel, rfl, isHandle_brushTree⟩
  obtain ⟨hmanual, hignored⟩ :=
    (((leftToHand_iff brushTree).2 3).2.2 hcurrent).2.2 fun h => absurd h (by decide +kernel)
  obtain ⟨hmanual', hignored'⟩ :=
    (((leftToHand_iff brushTree).2 4).2.2 hlast).2.2 fun h => absurd h (by decide +kernel)
  exact ⟨hmanual, hignored, hmanual', hignored'⟩

/-- The third property points to the handle as well, and it is not kept out. -/
theorem not_leftToHand_brushTree :
    brushTree.PointsToHandle 5 ∧
      ¬ ((brushTree.leaveHandlesToHand.tree.decl 5).isManual = true ∧
        (brushTree.leaveHandlesToHand.tree.decl 5).ignored = true) := by
  have hnext : brushTree.PointsToHandle 5 :=
    ⟨textures, true, _, by decide +kernel, rfl, isHandle_brushTree⟩
  have hopen : (brushTree.leaveHandlesToHand.tree.decl 5).ignored = false := by decide +kernel
  refine ⟨hnext, fun h => ?_⟩
  rw [hopen] at h
  exact Bool.false_ne_true h.2

end Tree

end Bindery
