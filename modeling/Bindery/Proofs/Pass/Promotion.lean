import Bindery.Pass.Promotion
import Bindery.Proofs.Sweep

/-!
# Promotion leaves nothing to promote

Whether a function can become a method depends on its first parameter type, on the class behind
that type and on whether the identifier of the method is taken (`Promotable`).  A promotion never
fails: what it adds is a method under a new identifier, in a class (`exists_result_promoteOne`).

After the pass no free function can be promoted (`promoted_promoteFunctions`), and this stays so
whatever the tree develops into: classes are not found anew, hidden ones do not come back, and an
identifier once taken stays taken (`Promoted.of_develops`).
-/

namespace Bindery

namespace Decl

/-- The type of the first parameter of a function or method. -/
def firstType? (d : Decl) : Option QualType := d.signature?.bind (·.parameterTypes.head?)

/-- The type of the first argument is no default value, so the shape has it. -/
lemma firstType?_shape (d : Decl) : d.shape.firstType? = d.firstType? := by
  unfold firstType?
  rw [signature?_shape]
  cases d.signature? <;> simp

lemma firstType?_eq_some_iff {d : Decl} {type : QualType} :
    d.firstType? = some type ↔ ∃ signature first rest, d.signature? = some signature ∧
      signature.arguments = first :: rest ∧ first.type = type := by
  rw [firstType?, Option.bind_eq_some_iff]
  refine exists_congr fun signature => ?_
  cases harguments : signature.arguments with
  | nil => simp [Signature.parameterTypes, harguments]
  | cons first rest => simp [Signature.parameterTypes, harguments]

end Decl

namespace Tree

variable {t u : Tree} {strip : Bool} {id : Nat}

/-! ## What is promoted -/

/-- A function can become a method of a class. -/
def Promotable (t : Tree) (id : Nat) : Prop :=
  ∃ type c, (t.decl id).firstType? = some type ∧ (t.classBehind type).value = some c ∧
    (t.decl c).ignored = false ∧ (t.decl c).isCompleteClass = true ∧
    t.get? (t.decl id).usr.promoted = none

/-- What stands behind a type as its class is a class of the tree. -/
lemma of_classBehind {type : QualType} {c : Nat} (h : (t.classBehind type).value = some c) :
    c < t.size ∧ (t.decl c).kind = .classType := by
  have key : ∀ target : QualType,
      ((target.declared?.bind t.get?).filter fun id => (t.decl id).kind = .classType) = some c →
        c < t.size ∧ (t.decl c).kind = .classType := by
    intro target htarget
    obtain ⟨hfound, hkind⟩ := Option.filter_eq_some_iff.1 htarget
    obtain ⟨usr, -, hget⟩ := Option.bind_eq_some_iff.1 hfound
    exact ⟨(get?_eq_some hget).1, of_decide_eq_true hkind⟩
  rw [classBehind, Logged.value_bind] at h
  cases hp : (t.behindTypedefs type).value.pointee? with
  | none => exact key _ (by simpa [hp] using h)
  | some pointee => exact key _ (by simpa [hp] using h)

/-- A function that has its method already gets no other. -/
lemma promotedTo?_of_taken {function : Decl} {target other : Nat}
    (htaken : t.get? function.usr.promoted = some other) :
    t.promotedTo? strip function target = none := by
  rw [promotedTo?, htaken]
  cases function.signature? <;> rfl

lemma promotedTo?_of_fresh (strip : Bool) (target : Nat) {function : Decl} {s : Signature}
    {first : Argument} {rest : List Argument} (hs : function.signature? = some s)
    (harguments : s.arguments = first :: rest) (hfresh : t.get? function.usr.promoted = none) :
    t.promotedTo? strip function target = some ⟨target, Promotion.declOf function
      (if strip then Promotion.withoutClassName (t.decl target).headerName function.name
        else function.name)
      ⟨{ s with arguments := rest }, false, false, some first, some function.usr⟩⟩ := by
  have hmethod : Method.ofFunction? s function.usr =
      some ⟨{ s with arguments := rest }, false, false, some first, some function.usr⟩ := by
    rw [Method.ofFunction?, harguments]
  rw [promotedTo?, hs, hfresh]
  change (Method.ofFunction? s function.usr).bind _ = _
  rw [hmethod]
  rfl

/-- What becomes of a function whose first argument is an open class with a definition. -/
lemma promotion?_of_fresh (strip : Bool) {s : Signature} {first : Argument} {rest : List Argument}
    {c : Nat} (hs : (t.decl id).signature? = some s) (harguments : s.arguments = first :: rest)
    (hclass : (t.classBehind first.type).value = some c) (hopen : (t.decl c).ignored = false)
    (hcomplete : (t.decl c).isCompleteClass = true)
    (hfresh : t.get? (t.decl id).usr.promoted = none) :
    (t.promotion? strip id).value = some ⟨c, Promotion.declOf (t.decl id)
      (if strip then Promotion.withoutClassName (t.decl c).headerName (t.decl id).name
        else (t.decl id).name)
      ⟨{ s with arguments := rest }, false, false, some first, some (t.decl id).usr⟩⟩ := by
  have htarget : (t.promotionTarget? s).value = some c := by
    simp [promotionTarget?, harguments, hclass, Option.filter, hopen, hcomplete]
  simp [promotion?, hs, htarget, promotedTo?_of_fresh strip c hs harguments hfresh]

/-- A promotion is found for what is promotable, it leads into the class that was found, and the
first argument of the function becomes the receiver. -/
lemma method_of_promotion? {p : Promotion} (h : (t.promotion? strip id).value = some p) :
    t.Promotable id ∧ (t.decl p.target).kind = .classType ∧
      ∃ s first rest name, (t.decl id).signature? = some s ∧ s.arguments = first :: rest ∧
        p.method = Promotion.declOf (t.decl id) name
          ⟨{ s with arguments := rest }, false, false, some first, some (t.decl id).usr⟩ := by
  unfold promotion? at h
  cases hs : (t.decl id).signature? with
  | none => simp [hs] at h
  | some s =>
    simp only [hs, Logged.value_bind, Logged.value_pure] at h
    obtain ⟨c, htarget, hpromoted⟩ := Option.bind_eq_some_iff.1 h
    unfold promotionTarget? at htarget
    cases harguments : s.arguments with
    | nil => simp [harguments] at htarget
    | cons first rest =>
      simp only [harguments, Logged.value_bind, Logged.value_pure] at htarget
      obtain ⟨hclass, hopen⟩ := Option.filter_eq_some_iff.1 htarget
      simp only [Bool.and_eq_true, Bool.not_eq_true'] at hopen
      cases hfresh : t.get? (t.decl id).usr.promoted with
      | some other =>
        rw [promotedTo?_of_taken hfresh] at hpromoted
        cases hpromoted
      | none =>
        have hp := promotedTo?_of_fresh strip c hs harguments hfresh
        obtain rfl := Option.some.inj (hp.symm.trans hpromoted)
        have htype := Decl.firstType?_eq_some_iff.2 ⟨s, first, rest, hs, harguments, rfl⟩
        exact ⟨⟨first.type, c, htype, hclass, hopen.1, hopen.2, hfresh⟩, (of_classBehind hclass).2,
          s, first, rest, _, rfl, harguments, rfl⟩

/-- What is known of a promotion: its function can be promoted, and its method is new and goes to a
class. -/
lemma of_promotion? {p : Promotion} (h : (t.promotion? strip id).value = some p) :
    t.Promotable id ∧ (t.decl p.target).kind = .classType ∧ p.method.kind = .method ∧
      p.method.usr = (t.decl id).usr.promoted ∧
      ∃ s first rest, (t.decl id).signature? = some s ∧ s.arguments = first :: rest ∧
        p.method.signature? = some { s with arguments := rest } := by
  obtain ⟨hpromotable, hclass, s, first, rest, name, hs, harguments, hmethod⟩ :=
    method_of_promotion? h
  rw [hmethod]
  exact ⟨hpromotable, hclass, rfl, rfl, s, first, rest, hs, harguments, rfl⟩

lemma exists_promotion? (strip : Bool) (h : t.Promotable id) :
    ∃ p, (t.promotion? strip id).value = some p := by
  obtain ⟨type, c, htype, hclass, hopen, hcomplete, hfresh⟩ := h
  obtain ⟨s, first, rest, hs, harguments, rfl⟩ := Decl.firstType?_eq_some_iff.1 htype
  exact ⟨_, promotion?_of_fresh strip hs harguments hclass hopen hcomplete hfresh⟩

/-- No promotion is found exactly where none is possible. -/
lemma promotion?_eq_none_iff : (t.promotion? strip id).value = none ↔ ¬ t.Promotable id := by
  constructor
  · intro h hpromotable
    obtain ⟨p, hp⟩ := exists_promotion? strip hpromotable
    rw [h] at hp
    exact absurd hp (by simp)
  · intro h
    cases hp : (t.promotion? strip id).value with
    | none => rfl
    | some p => exact absurd (of_promotion? hp).1 h

/-- What is promotable after a development has been so before. -/
lemma Promotable.of_develops {free : List Field} (hdev : t.Develops free u) (hid : id < t.size)
    (h : u.Promotable id) : t.Promotable id := by
  obtain ⟨type, c, htype, hclass, hopen, hcomplete, hfresh⟩ := h
  rw [hdev.reads Decl.firstType? Decl.firstType?_shape hid] at htype
  rw [hdev.reads Decl.usr Decl.usr_shape hid] at hfresh
  rw [hdev.classBehind_eq] at hclass
  have hc : c < t.size := (of_classBehind hclass).1
  rw [hdev.reads Decl.isCompleteClass Decl.isCompleteClass_shape hc] at hcomplete
  refine ⟨type, c, htype, hclass, hdev.open_of hc hopen, hcomplete, ?_⟩
  rcases hdev.get?_cases (t.decl id).usr.promoted with hget | ⟨hnone, -⟩
  · rwa [← hget]
  · exact hnone

/-! ## One function -/

/-- What a promotion does: nothing, or it adds a method and hides the function. -/
lemma promoteOne_cases (strip : Bool) (t : Tree) (id : Nat) :
    (¬ t.Promotable id ∧ (t.promoteOne strip id).Idle t) ∨
      ∃ p grown, (t.promotion? strip id).value = some p ∧
        t.insert (some p.target) p.method = .ok grown ∧
        (t.promoteOne strip id).tree = grown.edit id .ignore ∧
        (t.promoteOne strip id).result = .ok 1 := by
  unfold promoteOne
  cases hp : (t.promotion? strip id).value with
  | none => exact .inl ⟨promotion?_eq_none_iff.1 hp, by simp [hp], by simp [hp]⟩
  | some p =>
    obtain ⟨⟨-, -, -, -, -, -, hfresh⟩, hclass, hmethod, husr, -⟩ := of_promotion? hp
    have hplace : t.admits (some p.target) p.method.kind = true := by
      refine admits_iff.2 ⟨?_, ?_⟩
      · rintro _ ⟨⟩
        exact lt_size_of_kind (by rw [hclass]; decide)
      · rw [Option.map_some, hclass, hmethod]
        rfl
    obtain ⟨grown, hgrown⟩ := exists_insert_eq_ok hplace (husr ▸ hfresh)
    exact .inr ⟨p, grown, rfl, hgrown, by simp [hp, hgrown], by simp [hp, hgrown]⟩

/-- A promotion never fails: there is room for a method in a class, and its identifier is new. -/
theorem exists_result_promoteOne (strip : Bool) (t : Tree) (id : Nat) :
    ∃ n, (t.promoteOne strip id).result = .ok n := by
  rcases promoteOne_cases strip t id with ⟨-, hidle⟩ | ⟨p, grown, -, -, -, hresult⟩
  · exact ⟨0, hidle.2⟩
  · exact ⟨1, hresult⟩

lemma develops_promoteOne (strip : Bool) (t : Tree) (id : Nat) :
    t.Develops [.ignored] (t.promoteOne strip id).tree := by
  rcases promoteOne_cases strip t id with ⟨-, hidle⟩ | ⟨p, grown, hp, hgrown, htree, -⟩
  · rw [hidle.1]
    exact .refl _ t
  · rw [htree]
    obtain ⟨-, -, hmethod, -⟩ := of_promotion? hp
    exact ((develops_insert hgrown hmethod).mono (by simp)).trans (develops_ignore grown id)

/-! ## The whole pass -/

/-- No free function can be promoted. -/
def Promoted (t : Tree) : Prop := ∀ id, t.isFreeFunction id = true → ¬ t.Promotable id

lemma kind_of_isFreeFunction (h : t.isFreeFunction id = true) : (t.decl id).kind = .function := by
  simp only [isFreeFunction, Bool.and_eq_true, decide_eq_true_eq] at h
  exact h.1.1

/-- A free function has been one before. -/
lemma isFreeFunction_of_develops {free : List Field} (hdev : t.Develops free u)
    (hid : id < t.size) (h : u.isFreeFunction id = true) : t.isFreeFunction id = true := by
  simp only [isFreeFunction, Bool.and_eq_true, Bool.not_eq_true', decide_eq_true_eq] at h ⊢
  rw [hdev.kind_eq hid, hdev.inNamespaceScope_eq hid] at h
  exact ⟨⟨h.1.1, hdev.open_of hid h.1.2⟩, h.2⟩

/-- A function that cannot be promoted, or is hidden, stays so: the part of `Promoted` that is about
one function. -/
lemma not_promotable_of_develops {free : List Field} (hdev : t.Develops free u)
    (h : t.isFreeFunction id = true → ¬ t.Promotable id) (hfree : u.isFreeFunction id = true) :
    ¬ u.Promotable id := by
  have hkind := kind_of_isFreeFunction hfree
  have hid : id < t.size :=
    hdev.lt_size_of_kind_ne (lt_size_of_kind (by rw [hkind]; decide)) (by rw [hkind]; decide)
  exact fun hpromotable =>
    h (isFreeFunction_of_develops hdev hid hfree) (hpromotable.of_develops hdev hid)

theorem Promoted.of_develops {free : List Field} (h : t.Promoted) (hdev : t.Develops free u) :
    u.Promoted :=
  fun id hfree => not_promotable_of_develops hdev (h id) hfree

lemma not_promotable_promoteOne (strip : Bool) (t : Tree) (id : Nat)
    (hfree : (t.promoteOne strip id).tree.isFreeFunction id = true) :
    ¬ (t.promoteOne strip id).tree.Promotable id := by
  rcases promoteOne_cases strip t id with ⟨hnot, hidle⟩ | ⟨p, grown, -, hgrown, htree, -⟩
  · rwa [hidle.1]
  · -- The function has just been hidden.
    rw [htree] at hfree ⊢
    have hid : id < (grown.edit id .ignore).size :=
      lt_size_of_kind (by rw [kind_of_isFreeFunction hfree]; decide)
    rw [size_edit] at hid
    rw [isFreeFunction, decl_edit, if_pos ⟨rfl, hid⟩] at hfree
    simp [Edit.apply] at hfree

/-- As no promotion fails, the pass is a sweep that cannot. -/
lemma promoteFunctions_eq (t : Tree) (strip : Bool) :
    t.promoteFunctions strip =
      .ofProgress (Progress.sweep (fun t id => (t.promoteOne strip id).progress)
        (t.walk.filter t.isFreeFunction) t) :=
  Outcome.sweep_eq_ofProgress (exists_result_promoteOne strip) _ t

lemma develops_promoteFunctions (t : Tree) (strip : Bool) :
    t.Develops [.ignored] (t.promoteFunctions strip).tree := by
  rw [promoteFunctions_eq]
  exact Progress.sweep_develops (develops_promoteOne strip) _ t

/-- Each function is dealt with in its turn, and no later promotion makes another one possible. -/
theorem promoted_promoteFunctions (t : Tree) (strip : Bool) :
    (t.promoteFunctions strip).tree.Promoted := by
  have hdev := develops_promoteFunctions t strip
  intro id hfree
  have hkind := kind_of_isFreeFunction hfree
  have hid : id < t.size :=
    hdev.lt_size_of_kind_ne (lt_size_of_kind (by rw [hkind]; decide)) (by rw [hkind]; decide)
  have hmem : id ∈ t.walk.filter t.isFreeFunction :=
    List.mem_filter.2 ⟨mem_walk_iff.2 hid, isFreeFunction_of_develops hdev hid hfree⟩
  revert hfree
  rw [promoteFunctions_eq]
  refine Progress.sweep_establishes
    (Q := fun t id => t.isFreeFunction id = true → ¬ t.Promotable id) ?_ ?_ id hmem
  · exact not_promotable_promoteOne strip
  · exact fun t id i h => not_promotable_of_develops (develops_promoteOne strip t id) h

/-- Where nothing can be promoted nothing is. -/
lemma Promoted.idle (h : t.Promoted) (strip : Bool) : (t.promoteFunctions strip).Idle t := by
  rw [promoteFunctions_eq]
  refine Outcome.idle_ofProgress (Progress.sweep_idle fun id hid => ?_)
  rcases promoteOne_cases strip t id with ⟨-, hidle⟩ | ⟨p, grown, hp, -⟩
  · exact ⟨hidle.1, by simp [Outcome.progress, hidle.2, Except.toOption]⟩
  · exact absurd (of_promotion? hp).1 (h id (List.mem_filter.1 hid).2)

end Tree

end Bindery
