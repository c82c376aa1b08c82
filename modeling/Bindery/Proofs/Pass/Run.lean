import Bindery.Pass.Run
import Bindery.Proofs.Pass.DuplicateNames
import Bindery.Proofs.Pass.FlagEnums
import Bindery.Proofs.Pass.InheritedDefaults
import Bindery.Proofs.Pass.PointerTypedefs
import Bindery.Proofs.Pass.Visibility

/-!
# Running a list of passes twice

Every pass leaves a tree in which it has nothing left to do (`settled_run`).  A later pass can bring
something up again only if it adds methods: all others either leave the fields alone on which the
earlier pass depends, or change them in a way that does no harm (`Settled.run`).

* `checkOrder_eq_ok_iff`: what a valid list is.
* `settled_runInOrder`: if no pass of a list is disturbed by a later one, then after the list none
  of its passes has anything left to do.
-/

namespace Bindery

namespace Pass

/-! ## Valid lists -/

/-- No pass is reported exactly if none is listed twice. -/
lemma repeated?_eq_none_iff {seen kinds : List PassKind} :
    repeated? seen kinds = none ↔ kinds.Nodup ∧ ∀ kind ∈ kinds, kind ∉ seen := by
  induction kinds generalizing seen with
  | nil => simp [repeated?]
  | cons kind kinds ih =>
    rw [repeated?]
    split
    · next hseen => simp [hseen]
    · next hnew =>
      rw [ih]
      simp only [List.nodup_cons, List.mem_cons, not_or, forall_eq_or_imp]
      constructor
      · rintro ⟨hnodup, hkinds⟩
        exact ⟨⟨fun hmem => (hkinds kind hmem).1 rfl, hnodup⟩, hnew, fun k hk => (hkinds k hk).2⟩
      · rintro ⟨⟨hmem, hnodup⟩, -, hkinds⟩
        exact ⟨hnodup, fun k hk => ⟨fun heq => hmem (heq ▸ hk), hkinds k hk⟩⟩

/-- In a list without repetitions two passes are reversed if they stand in it the other way round.
-/
lemma isReversed_iff {kinds : List PassKind} {earlier later : PassKind} (hne : earlier ≠ later)
    (hnodup : kinds.Nodup) :
    isReversed kinds earlier later = true ↔ [later, earlier].Sublist kinds := by
  induction kinds with
  | nil => simp [isReversed]
  | cons kind kinds ih =>
    obtain ⟨hmem, hnodup⟩ := List.nodup_cons.1 hnodup
    rw [List.cons_sublist_cons', List.singleton_sublist, ← ih hnodup]
    unfold isReversed
    rw [List.idxOf?_cons, List.idxOf?_cons]
    by_cases hlater : kind = later
    · subst hlater
      have hnone : List.idxOf? kind kinds = none := List.idxOf?_eq_none_iff.2 hmem
      cases hidx : List.idxOf? earlier kinds with
      | none =>
        have := List.idxOf?_eq_none_iff.1 hidx
        simp [hne.symm, this]
      | some e =>
        have : earlier ∈ kinds := by
          by_contra hnot
          rw [List.idxOf?_eq_none_iff.2 hnot] at hidx
          exact absurd hidx (by simp)
        simp [hne.symm, this]
    · by_cases hearlier : kind = earlier
      · subst hearlier
        have hnone : List.idxOf? kind kinds = none := List.idxOf?_eq_none_iff.2 hmem
        simp only [hnone, beq_self_eq_true, if_true, beq_iff_eq, hlater, if_false]
        cases List.idxOf? later kinds <;> simp [Ne.symm hlater]
      · simp only [beq_iff_eq, hlater, hearlier, if_false, Ne.symm hlater, false_and, or_false]
        cases List.idxOf? earlier kinds <;> cases List.idxOf? later kinds <;> simp

/-- A list of passes is valid if it holds each pass once, and none before one it needs. -/
theorem checkOrder_eq_ok_iff {passes : List Pass} :
    checkOrder passes = .ok () ↔ (passes.map kind).Nodup ∧
      ∀ d ∈ dependencies, isReversed (passes.map kind) d.1 d.2 = false := by
  unfold checkOrder
  cases hrepeated : repeated? [] (passes.map kind) with
  | some kind =>
    have hnot : ¬ (passes.map Pass.kind).Nodup := by
      intro hnodup
      rw [repeated?_eq_none_iff.2 ⟨hnodup, by simp⟩] at hrepeated
      exact absurd hrepeated (by simp)
    simp [hrepeated, hnot]
  | none =>
    have hnodup := (repeated?_eq_none_iff.1 hrepeated).1
    simp only [hrepeated, hnodup, true_and]
    split
    · next earlier later hfound =>
      have hmem := List.mem_of_find?_eq_some hfound
      have hreversed : isReversed (passes.map kind) earlier later = true :=
        (List.find?_eq_some_iff_append.1 hfound).1
      simp only [reduceCtorEq, false_iff]
      intro h
      rw [h _ hmem] at hreversed
      exact absurd hreversed (by simp)
    · next hfound =>
      simp only [true_iff]
      intro d hd
      simpa using List.find?_eq_none.1 hfound d hd

/-! ## What a pass leaves behind -/

/-- The fields that a pass may change. -/
def touches : Pass → List Field
  | .promoteFunctions _ => [.ignored]
  | .separateNames => [.name]
  | .classifyEnums => [.flags]
  | .inheritDefaults => [.defaults]
  | .dropDefaults => [.defaults]
  | .publishNestedTypes => [.access]
  | .leaveHandlesToHand => [.ignored, .manual]

lemma develops_run (pass : Pass) (t : Tree) : t.Develops pass.touches (pass.run t).tree := by
  cases pass with
  | promoteFunctions strip => exact Tree.develops_promoteFunctions t strip
  | separateNames => exact Tree.develops_separateAllNames t
  | classifyEnums => exact Tree.develops_classifyEnums t
  | inheritDefaults => exact Tree.develops_inheritDefaults t
  | dropDefaults => exact Tree.develops_dropDefaults t
  | publishNestedTypes => exact Tree.develops_publishNestedTypes t
  | leaveHandlesToHand => exact Tree.develops_leaveHandlesToHand t

lemma size_run {pass : Pass} (h : pass.kind ≠ .promoteFunctions) (t : Tree) :
    (pass.run t).tree.size = t.size := by
  cases pass with
  | promoteFunctions strip => exact absurd rfl h
  | separateNames => exact Tree.size_separateAllNames t
  | classifyEnums => exact Tree.size_classifyEnums t
  | inheritDefaults => exact Tree.size_inheritDefaults t
  | dropDefaults => exact Tree.size_dropDefaults t
  | publishNestedTypes => exact Tree.size_publishNestedTypes t
  | leaveHandlesToHand => exact Tree.size_leaveHandlesToHand t

/-- No pass fails, on whatever tree. -/
lemma exists_result_run (pass : Pass) (t : Tree) : ∃ n, (pass.run t).result = .ok n := by
  cases pass with
  | promoteFunctions strip =>
    rw [run, Tree.promoteFunctions_eq]
    exact ⟨_, rfl⟩
  | _ => exact ⟨_, rfl⟩

/-- Nothing is left to do for the passes of a kind. -/
def Settled : PassKind → Tree → Prop
  | .promoteFunctions, t => t.Promoted
  | .separateNames, t => t.Separated
  | .classifyEnums, t => t.Classified
  | .inheritDefaults, t => t.Inherited
  | .dropDefaults, t => t.Trimmed
  | .publishNestedTypes, t => t.Published
  | .leaveHandlesToHand, t => t.HandlesMarked

theorem settled_run (pass : Pass) (t : Tree) : Settled pass.kind (pass.run t).tree := by
  cases pass with
  | promoteFunctions strip => exact Tree.promoted_promoteFunctions t strip
  | separateNames => exact Tree.separated_separateAllNames t
  | classifyEnums => exact Tree.classified_classifyEnums t
  | inheritDefaults => exact Tree.inherited_inheritDefaults t
  | dropDefaults => exact Tree.trimmed_dropDefaults t
  | publishNestedTypes => exact Tree.published_publishNestedTypes t
  | leaveHandlesToHand => exact Tree.handlesMarked_leaveHandlesToHand t

/-- Where nothing is left to do a pass changes and counts nothing. -/
lemma Settled.idle {pass : Pass} {t : Tree} (h : Settled pass.kind t) : (pass.run t).Idle t := by
  cases pass with
  | promoteFunctions strip => exact Tree.Promoted.idle h strip
  | separateNames => exact Outcome.idle_ofProgress (Tree.Separated.idle h)
  | classifyEnums => exact Outcome.idle_ofProgress (Tree.Classified.idle h)
  | inheritDefaults => exact Outcome.idle_ofProgress (Tree.Inherited.idle h)
  | dropDefaults => exact Outcome.idle_ofProgress (Tree.Trimmed.idle h)
  | publishNestedTypes => exact Outcome.idle_ofProgress (Tree.Published.idle h)
  | leaveHandlesToHand => exact Outcome.idle_ofProgress (Tree.HandlesMarked.idle h)

/-- A pass of kind `earlier` can have something to do again after one of kind `later`: new methods
can clash with others, mention types, and lack default values. -/
def Disturbs (later earlier : PassKind) : Prop :=
  later = .promoteFunctions ∧
    (earlier = .separateNames ∨ earlier = .publishNestedTypes ∨ earlier = .inheritDefaults)

instance (later earlier : PassKind) : Decidable (Disturbs later earlier) :=
  inferInstanceAs (Decidable (_ ∧ _))

/-- What is settled stays settled, whatever pass is run, unless that pass adds methods. -/
theorem Settled.run {kind : PassKind} {t : Tree} (h : Settled kind t) {pass : Pass}
    (hnot : ¬ Disturbs pass.kind kind) : Settled kind (pass.run t).tree := by
  have hdev := develops_run pass t
  by_cases hsame : kind = pass.kind
  · rw [hsame]
    exact settled_run pass t
  cases kind with
  | promoteFunctions => exact Tree.Promoted.of_develops h hdev
  | leaveHandlesToHand => exact Tree.HandlesMarked.of_develops h hdev
  | classifyEnums =>
    refine Tree.Classified.of_develops h hdev ?_
    cases pass <;> simp_all [touches, Pass.kind]
  | separateNames =>
    have hpromote : pass.kind ≠ .promoteFunctions := fun heq => hnot ⟨heq, .inl rfl⟩
    refine Tree.Separated.of_develops h hdev (size_run hpromote t) ?_
    cases pass <;> simp_all [touches, Pass.kind]
  | publishNestedTypes =>
    have hpromote : pass.kind ≠ .promoteFunctions := fun heq => hnot ⟨heq, .inr (.inl rfl)⟩
    refine Tree.Published.of_develops h hdev (size_run hpromote t) ?_
    cases pass <;> simp_all [touches, Pass.kind]
  | inheritDefaults =>
    have hpromote : pass.kind ≠ .promoteFunctions := fun heq => hnot ⟨heq, .inr (.inr rfl)⟩
    cases pass with
    | dropDefaults => exact Tree.Inherited.dropDefaults h
    | inheritDefaults => exact absurd rfl hsame
    | promoteFunctions strip => exact absurd rfl hpromote
    | _ => exact Tree.Inherited.of_develops h hdev (size_run hpromote t) (by simp [touches])
  | dropDefaults =>
    cases pass with
    | inheritDefaults => exact Tree.Trimmed.inheritDefaults h
    | promoteFunctions strip => exact Tree.Trimmed.promoteFunctions h strip
    | dropDefaults => exact absurd rfl hsame
    | _ =>
      exact Tree.Trimmed.of_develops h hdev (size_run (by simp [Pass.kind]) t)
        (by simp [touches])

/-! ## Lists of passes -/

/-- The first pass runs to its end, and the others start on the tree it leaves. -/
lemma runInOrder_cons (pass : Pass) (passes : List Pass) (t : Tree) :
    (runInOrder (pass :: passes) t).tree = (runInOrder passes (pass.run t).tree).tree ∧
      ∃ n, (pass.run t).result = .ok n ∧ (runInOrder (pass :: passes) t).result =
        (runInOrder passes (pass.run t).tree).result.map (n + ·) := by
  obtain ⟨n, hn⟩ := exists_result_run pass t
  have hlisted : (pass.runListed t).result = .ok n := by
    rw [runListed, Outcome.result_logging, Outcome.mapError, hn, Except.mapError]
  have htree : (pass.runListed t).tree = (pass.run t).tree := by
    rw [runListed, Outcome.tree_logging, Outcome.tree_mapError]
  rw [runInOrder, Outcome.andThen_of_ok hlisted, htree]
  exact ⟨rfl, n, hn, rfl⟩

lemma exists_result_runInOrder (passes : List Pass) (t : Tree) :
    ∃ n, (runInOrder passes t).result = .ok n := by
  induction passes generalizing t with
  | nil => exact ⟨0, rfl⟩
  | cons pass passes ih =>
    obtain ⟨-, n, -, hresult⟩ := runInOrder_cons pass passes t
    obtain ⟨m, hm⟩ := ih (pass.run t).tree
    exact ⟨n + m, by rw [hresult, hm]; rfl⟩

lemma develops_runInOrder (passes : List Pass) (t : Tree) :
    t.Develops (passes.flatMap touches) (runInOrder passes t).tree := by
  induction passes generalizing t with
  | nil => exact .refl _ t
  | cons pass passes ih =>
    rw [(runInOrder_cons pass passes t).1, List.flatMap_cons]
    exact ((develops_run pass t).mono (List.subset_append_left _ _)).trans
      ((ih _).mono (List.subset_append_right _ _))

/-- Passes leave a name as it is or put a number behind it. -/
lemma numbered_run (pass : Pass) {t : Tree} {id : Nat} (h : id < t.size) :
    Numbered (t.decl id).name ((pass.run t).tree.decl id).name := by
  have hdev := develops_run pass t
  cases pass with
  | separateNames => exact Tree.numbered_separateAllNames t id
  | _ => exact .inl (hdev.same .name (by simp [touches]) id h).symm

lemma numbered_runInOrder (passes : List Pass) {t : Tree} {id : Nat} (h : id < t.size) :
    Numbered (t.decl id).name ((runInOrder passes t).tree.decl id).name := by
  induction passes generalizing t with
  | nil => exact .inl rfl
  | cons pass passes ih =>
    rw [(runInOrder_cons pass passes t).1]
    have hlt : id < (pass.run t).tree.size := Nat.lt_of_lt_of_le h (develops_run pass t).size_le
    exact (numbered_run pass h).trans (ih hlt)

/-- What a pass has settled stays so while no pass runs that disturbs it. -/
lemma Settled.runInOrder {kind : PassKind} {passes : List Pass} {t : Tree} (h : Settled kind t)
    (hnot : ∀ pass ∈ passes, ¬ Disturbs pass.kind kind) :
    Settled kind (runInOrder passes t).tree := by
  induction passes generalizing t with
  | nil => exact h
  | cons pass passes ih =>
    rw [List.forall_mem_cons] at hnot
    rw [(runInOrder_cons pass passes t).1]
    exact ih (h.run hnot.1) hnot.2

/-- If no pass of a list is disturbed by a later one, the list leaves nothing to do for any of
them. -/
theorem settled_runInOrder {passes : List Pass}
    (h : passes.Pairwise fun a b => ¬ Disturbs b.kind a.kind) (t : Tree) :
    ∀ pass ∈ passes, Settled pass.kind (runInOrder passes t).tree := by
  induction passes generalizing t with
  | nil => simp
  | cons pass passes ih =>
    obtain ⟨hhead, htail⟩ := List.pairwise_cons.1 h
    rw [(runInOrder_cons pass passes t).1]
    refine List.forall_mem_cons.2 ⟨?_, ih htail (pass.run t).tree⟩
    exact (settled_run pass t).runInOrder hhead

lemma tree_runInOrder_append (front passes : List Pass) (t : Tree) :
    (runInOrder (front ++ passes) t).tree =
      (runInOrder passes (runInOrder front t).tree).tree := by
  induction front generalizing t with
  | nil => rfl
  | cons pass front ih =>
    rw [List.cons_append, (runInOrder_cons pass _ t).1, (runInOrder_cons pass _ t).1, ih]

/-- Passes that have nothing to do can be left out at the front of a list. -/
lemma runInOrder_append {front passes : List Pass} {t : Tree}
    (h : ∀ pass ∈ front, (pass.run t).Idle t) :
    (runInOrder (front ++ passes) t).tree = (runInOrder passes t).tree ∧
      (runInOrder (front ++ passes) t).result = (runInOrder passes t).result := by
  induction front with
  | nil => exact ⟨rfl, rfl⟩
  | cons pass front ih =>
    obtain ⟨hidle, hfront⟩ := List.forall_mem_cons.1 h
    obtain ⟨htree, n, hn, hresult⟩ := runInOrder_cons pass (front ++ passes) t
    rw [hidle.2] at hn
    cases hn
    rw [List.cons_append, htree, hresult, hidle.1, (ih hfront).1, (ih hfront).2]
    refine ⟨rfl, ?_⟩
    cases (Pass.runInOrder passes t).result <;> simp [Except.map]

lemma runInOrder_idle {passes : List Pass} {t : Tree}
    (h : ∀ pass ∈ passes, (pass.run t).Idle t) : (runInOrder passes t).Idle t := by
  have hnil := @runInOrder_append passes [] t h
  rwa [List.append_nil] at hnil

end Pass

lemma Tree.applyPasses_of_checkOrder {passes : List Pass} (h : Pass.checkOrder passes = .ok ())
    (t : Tree) : t.applyPasses passes = Pass.runInOrder passes t := by
  rw [Tree.applyPasses, h]

end Bindery
