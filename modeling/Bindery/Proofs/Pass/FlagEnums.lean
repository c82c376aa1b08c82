import Bindery.Pass.FlagEnums
import Bindery.Proofs.Sweep

/-!
# Every enumeration is marked as its members demand

Members never change and only this pass changes marks, so what it leaves behind (`Classified`) stays
for good (`Classified.of_develops`).  Each mark is corrected by itself, so the pass makes as many
changes as there are wrong marks (`changes_classifyEnums`), whatever else happens to the tree.
-/

namespace Bindery

/-! ## Marks -/

namespace Decl

/-- The mark that the members of an enumeration demand. -/
def demandedFlags? (d : Decl) : Option Bool :=
  match d.payload with
  | .enumType variants _ => some (FlagEnum.isFlagSet variants)
  | _ => none

/-- What the members demand is told from the members, which no edit changes. -/
@[simp]
lemma demandedFlags?_shape (d : Decl) : d.shape.demandedFlags? = d.demandedFlags? := by
  unfold demandedFlags? shape
  cases d.payload <;> rfl

lemma demandedFlags?_of_kind_ne {d : Decl} (h : d.kind ≠ .enumType) :
    d.demandedFlags? = none := by
  revert h
  unfold demandedFlags? kind
  cases d.payload <;> simp [Payload.kind]

/-- An enumeration whose mark is not the one that its members demand. -/
def isMismarked (d : Decl) : Bool := d.flags? ≠ d.demandedFlags?

lemma isMismarked_of_kind_ne {d : Decl} (h : d.kind ≠ .enumType) : d.isMismarked = false := by
  rw [isMismarked, flags?_of_kind_ne h, demandedFlags?_of_kind_ne h]
  decide

end Decl

namespace Tree

variable {t u : Tree}

/-- The declaration at a position, if an enumeration, is marked as its members demand. -/
def ClassifiedAt (t : Tree) (id : Nat) : Prop :=
  ∀ variants isFlags, (t.decl id).payload = .enumType variants isFlags →
    FlagEnum.isFlagSet variants = isFlags

/-- Every enumeration is marked as its members demand. -/
def Classified (t : Tree) : Prop := ∀ id, t.ClassifiedAt id

/-- An enumeration is classified if its mark is the one its members demand. -/
lemma classifiedAt_iff {id : Nat} :
    t.ClassifiedAt id ↔ (t.decl id).flags? = (t.decl id).demandedFlags? := by
  unfold ClassifiedAt Decl.flags? Decl.demandedFlags?
  cases (t.decl id).payload <;> simp [eq_comm]

lemma classifiedAt_of_kind_ne {id : Nat} (h : (t.decl id).kind ≠ .enumType) :
    t.ClassifiedAt id := by
  rw [classifiedAt_iff, Decl.flags?_of_kind_ne h, Decl.demandedFlags?_of_kind_ne h]

/-- Marks stay right as long as nothing but this pass sets them. -/
theorem Classified.of_develops {free : List Field} (h : t.Classified) (hdev : t.Develops free u)
    (hfree : .flags ∉ free) : u.Classified := by
  intro id
  by_cases hkind : (u.decl id).kind = .enumType
  · have hid : id < t.size :=
      hdev.lt_size_of_kind_ne (lt_size_of_kind (by rw [hkind]; decide)) (by rw [hkind]; decide)
    have hflags : (t.decl id).flags? = (u.decl id).flags? := hdev.same .flags hfree id hid
    have hdemanded := hdev.reads Decl.demandedFlags? Decl.demandedFlags?_shape hid
    exact classifiedAt_iff.2 (hflags.symm.trans ((classifiedAt_iff.1 (h id)).trans hdemanded.symm))
  · exact classifiedAt_of_kind_ne hkind

/-! ## One enumeration -/

/-- Either the mark is right, or it is set to what the members demand. -/
lemma classifyEnum_cases (t : Tree) (id : Nat) :
    (t.ClassifiedAt id ∧ (t.classifyEnum id).Idle t) ∨
      ∃ variants isFlags, (t.decl id).payload = .enumType variants isFlags ∧
        (t.classifyEnum id).tree = t.edit id (.setFlags (FlagEnum.isFlagSet variants)) := by
  unfold classifyEnum
  split
  · next variants isFlags hpayload =>
    by_cases hmarked : FlagEnum.isFlagSet variants = isFlags
    · refine .inl ⟨fun vs f hvs => ?_, ?_⟩
      · rw [hpayload] at hvs
        cases hvs
        exact hmarked
      · rw [if_pos hmarked]
        exact Progress.idle_unchanged t
    · refine .inr ⟨variants, isFlags, hpayload, ?_⟩
      rw [if_neg hmarked]
      rfl
  · next hother =>
    exact .inl ⟨fun vs f hvs => absurd hvs (hother vs f), Progress.idle_unchanged t⟩

lemma develops_classifyEnum (t : Tree) (id : Nat) :
    t.Develops [.flags] (t.classifyEnum id).tree := by
  rcases classifyEnum_cases t id with ⟨-, hidle⟩ | ⟨variants, isFlags, -, htree⟩
  · rw [hidle.1]
    exact .refl _ t
  · rw [htree]
    exact develops_edit (show Edit.Fits (.setFlags _) _ from trivial)

lemma size_classifyEnum (t : Tree) (id : Nat) : (t.classifyEnum id).tree.size = t.size := by
  rcases classifyEnum_cases t id with ⟨-, hidle⟩ | ⟨variants, isFlags, -, htree⟩
  · rw [hidle.1]
  · rw [htree, size_edit]

lemma decl_classifyEnum_of_ne {id i : Nat} (h : id ≠ i) :
    (t.classifyEnum id).tree.decl i = t.decl i := by
  rcases classifyEnum_cases t id with ⟨-, hidle⟩ | ⟨variants, isFlags, -, htree⟩
  · rw [hidle.1]
  · rw [htree, decl_edit_of_ne h]

/-- A change is a mark that was wrong. -/
lemma changes_classifyEnum (t : Tree) (id : Nat) :
    (t.classifyEnum id).changes = if (t.decl id).isMismarked then 1 else 0 := by
  unfold classifyEnum Decl.isMismarked Decl.flags? Decl.demandedFlags?
  cases (t.decl id).payload with
  | enumType variants isFlags =>
    by_cases h : FlagEnum.isFlagSet variants = isFlags
    · simp [h, Progress.unchanged]
    · simp [h, Ne.symm h, Progress.edited]
  | _ => rfl

lemma classifiedAt_classifyEnum (t : Tree) (id : Nat) :
    (t.classifyEnum id).tree.ClassifiedAt id := by
  rcases classifyEnum_cases t id with ⟨hmarked, hidle⟩ | ⟨variants, isFlags, hpayload, htree⟩
  · rwa [hidle.1]
  · intro vs f hvs
    have hid : id < t.size := lt_size_of_kind (by simp [Decl.kind, hpayload, Payload.kind])
    rw [htree, decl_edit, if_pos ⟨rfl, hid⟩] at hvs
    simp only [Edit.apply, hpayload, Edit.applyPayload, Payload.enumType.injEq] at hvs
    rw [← hvs.1, hvs.2]

/-- Marking one enumeration spoils no other. -/
lemma ClassifiedAt.of_classifyEnum {i : Nat} (h : t.ClassifiedAt i) (id : Nat) :
    (t.classifyEnum id).tree.ClassifiedAt i := by
  by_cases hid : id = i
  · rw [← hid]
    exact classifiedAt_classifyEnum t id
  · rw [ClassifiedAt, decl_classifyEnum_of_ne hid]
    exact h

/-! ## All enumerations -/

lemma develops_classifyEnums (t : Tree) : t.Develops [.flags] t.classifyEnums.tree :=
  Progress.sweep_develops develops_classifyEnum _ t

lemma size_classifyEnums (t : Tree) : t.classifyEnums.tree.size = t.size :=
  Progress.size_sweep size_classifyEnum _ t

lemma classified_classifyEnums (t : Tree) : t.classifyEnums.tree.Classified := by
  intro id variants isFlags hpayload
  have hid : id < t.classifyEnums.tree.size :=
    lt_size_of_kind (by simp [Decl.kind, hpayload, Payload.kind])
  rw [size_classifyEnums] at hid
  exact Progress.sweep_establishes classifiedAt_classifyEnum (fun t id i h => h.of_classifyEnum id)
    id (mem_walk_iff.2 hid) variants isFlags hpayload

lemma Classified.idle (h : t.Classified) : t.classifyEnums.Idle t := by
  refine Progress.sweep_idle fun id _ => ?_
  unfold classifyEnum
  split
  · next variants isFlags hpayload =>
    rw [if_pos (h id variants isFlags hpayload)]
    exact Progress.idle_unchanged t
  · exact Progress.idle_unchanged t

/-! ## Counting -/

/-- No enumeration is come to twice, so its mark is counted as it was in the first tree. -/
lemma changes_sweep_classifyEnum {ids : List Nat} (hnodup : ids.Nodup) (t : Tree) :
    (Progress.sweep classifyEnum ids t).changes =
      ids.countP fun id => (t.decl id).isMismarked := by
  induction ids generalizing t with
  | nil => rfl
  | cons id ids ih =>
    obtain ⟨hmem, hnodup⟩ := List.nodup_cons.1 hnodup
    have hrest : (ids.countP fun i => ((t.classifyEnum id).tree.decl i).isMismarked) =
        ids.countP fun i => (t.decl i).isMismarked := by
      refine List.countP_congr fun i hi => ?_
      rw [decl_classifyEnum_of_ne (by rintro rfl; exact hmem hi)]
    rw [Progress.sweep_cons, Progress.changes_andThen, ih hnodup, hrest, List.countP_cons,
      changes_classifyEnum, Nat.add_comm]

theorem changes_classifyEnums (t : Tree) :
    t.classifyEnums.changes = t.ids.countP fun id => (t.decl id).isMismarked := by
  have hwalk : t.walk.Perm t.ids :=
    (List.perm_ext_iff_of_nodup t.nodup_walk List.nodup_range).2 fun id => by
      rw [mem_walk_iff, List.mem_range]
  rw [classifyEnums, changes_sweep_classifyEnum t.nodup_walk, hwalk.countP_eq]

/-- New methods, and other fields, are nothing to the classification. -/
lemma changes_classifyEnums_of_develops {free : List Field} (h : t.Develops free u)
    (hfree : .flags ∉ free) : u.classifyEnums.changes = t.classifyEnums.changes := by
  obtain ⟨k, hk⟩ := Nat.exists_eq_add_of_le h.size_le
  have hold : ∀ id ∈ List.range t.size, (u.decl id).isMismarked = (t.decl id).isMismarked := by
    intro id hid
    have hlt := List.mem_range.1 hid
    have hflags : (t.decl id).flags? = (u.decl id).flags? := h.same .flags hfree id hlt
    rw [Decl.isMismarked, Decl.isMismarked, hflags,
      h.reads Decl.demandedFlags? Decl.demandedFlags?_shape hlt]
  have hnew : ∀ id ∈ (List.range k).map (t.size + ·), (u.decl id).isMismarked = false := by
    intro id hid
    obtain ⟨i, hi, rfl⟩ := List.mem_map.1 hid
    refine Decl.isMismarked_of_kind_ne ?_
    rw [h.method_of_le (by omega) (by have := List.mem_range.1 hi; omega)]
    decide
  have hnone : (((List.range k).map (t.size + ·)).countP fun id => (u.decl id).isMismarked) = 0 :=
    List.countP_eq_zero.2 fun id hid => by simp [hnew id hid]
  rw [changes_classifyEnums, changes_classifyEnums, ids, ids, hk, List.range_add,
    List.countP_append, hnone, Nat.add_zero]
  exact List.countP_congr fun id hid => by rw [hold id hid]

end Tree

end Bindery
