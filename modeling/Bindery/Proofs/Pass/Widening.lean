import Bindery.Proofs.Pass.Accessibility
import Bindery.Proofs.Tree.Editing
import Mathlib.Logic.Relation
import Mathlib.Order.Bounds.Basic

/-!
# The types made public are the fewest possible

A set of protected nested types is closed if it holds each of them that the interface mentions once
the set counts as public (`closedUnderMention`).  The pass makes public the least closed set, and
changes nothing else (`publishNestedTypes_least`).

The rounds are one way among many to get there.  `Publishes` makes any one mentioned type public.
After a number of such steps the tree is the first one with a set of types opened (`OpenedAt`), and
that set lies in every closed one, since what the interface mentions grows with what is public
(`exists_openedAt`).  Where no step is left, the set is closed (`closed_of_stuck`) and hence the least
one, whichever way was taken; so all ways end in the same tree, which is that of the rounds.
-/

namespace Bindery.Tree

variable {t u v : Tree} {W W' : Set Nat} {id : Nat} {usr : Usr}

/-! ## Closed sets -/

/-- The protected types directly inside a class that are not kept out. -/
def publishable (t : Tree) : Set Nat :=
  {id | (t.decl id).kind.isType = true ∧ (t.decl id).ignored = false ∧
    (∃ p, t.parent? id = some p ∧ (t.decl p).kind = .classType) ∧
    (t.decl id).access = .isProtected}

/-- The public interface mentions an identifier once the declarations in `W` count as public. -/
def MentionedWith (t : Tree) (W : Set Nat) (usr : Usr) : Prop :=
  ∃ id < t.size, (t.decl id).kind.isInterface = true ∧ usr ∈ (t.decl id).references ∧
    ∀ e ∈ t.lineage id, (t.decl e).ignored = false ∧ ((t.decl e).access = .isPublic ∨ e ∈ W)

/-- The sets of protected nested types to which there is none to add: each that the interface mentions
with the set counted as public is in it. -/
def closedUnderMention (t : Tree) : Set (Set Nat) :=
  {W | W ⊆ t.publishable ∧ ∀ id ∈ t.publishable, t.MentionedWith W (t.decl id).usr → id ∈ W}

lemma mem_publishable_iff :
    id ∈ t.publishable ↔ t.isTypeInClass id = true ∧ (t.decl id).access = .isProtected := by
  simp only [publishable, Set.mem_ofPred_eq, isTypeInClass, Option.any_eq_true, Bool.and_eq_true,
    Bool.not_eq_true', decide_eq_true_eq, and_assoc]

lemma lt_size_of_mem_publishable (h : id ∈ t.publishable) : id < t.size := by
  obtain ⟨-, -, ⟨p, hp, -⟩, -⟩ := h
  exact lt_size_of_parent? hp

lemma MentionedWith.mono (h : t.MentionedWith W usr) (hsub : W ⊆ W') :
    t.MentionedWith W' usr := by
  obtain ⟨i, hi, hinterface, husr, hvisible⟩ := h
  exact ⟨i, hi, hinterface, husr, fun e he => (hvisible e he).imp_right fun h => h.imp_right (@hsub e)⟩

lemma mentionedWith_empty_iff : t.MentionedWith ∅ usr ↔ usr ∈ t.mentioned := by
  rw [mem_mentioned_iff]
  refine exists_congr fun i => and_congr_right fun _ => and_congr_right fun _ => ?_
  simp [isVisible, Decl.isExposed, and_comm]

/-! ## Opening a set -/

/-- `u` is `t` with the declarations in `W` made public. -/
abbrev OpenedAt (t : Tree) (W : Set Nat) (u : Tree) : Prop :=
  t.EditedAt (.setAccess .isPublic) W u

namespace OpenedAt

lemma opened (h : t.OpenedAt W u) : Opened t u where
  size_eq := h.size_eq
  parent?_eq := h.parent?_eq
  decl_cases id := by
    by_cases hid : id ∈ W
    · exact .inr (h.decl_of_mem id hid)
    · exact .inl (h.decl_of_notMem id hid)

lemma access_eq_isPublic_iff (h : t.OpenedAt W u) (id : Nat) :
    (u.decl id).access = .isPublic ↔ (t.decl id).access = .isPublic ∨ id ∈ W := by
  by_cases hid : id ∈ W
  · simp [h.decl_of_mem id hid, hid, Edit.apply]
  · simp [h.decl_of_notMem id hid, hid]

lemma mentionedWith_empty_iff (h : t.OpenedAt W u) :
    u.MentionedWith ∅ usr ↔ t.MentionedWith W usr := by
  have hkind := h.opened.reads Decl.kind fun _ => rfl
  have hreferences := h.opened.reads Decl.references fun _ => rfl
  have hignored := h.opened.reads Decl.ignored fun _ => rfl
  simp only [MentionedWith, h.size_eq, hkind, hreferences, hignored, h.opened.lineage_eq,
    h.access_eq_isPublic_iff, Set.mem_empty_iff_false, or_false]

lemma mem_publishable_iff (h : t.OpenedAt W u) :
    id ∈ u.publishable ↔ id ∈ t.publishable ∧ id ∉ W := by
  rw [Tree.mem_publishable_iff, Tree.mem_publishable_iff, h.opened.isTypeInClass_eq, and_assoc]
  refine and_congr_right fun _ => ?_
  by_cases hid : id ∈ W
  · simp [h.decl_of_mem id hid, hid, Edit.apply]
  · simp [h.decl_of_notMem id hid, hid]

end OpenedAt

/-! ## One type at a time -/

/-- A protected nested type that the interface mentions is made public. -/
def Publishes (t u : Tree) : Prop :=
  ∃ id ∈ t.publishable, t.MentionedWith ∅ (t.decl id).usr ∧
    u = t.edit id (.setAccess .isPublic)

lemma Publishes.restricted_lt (h : Publishes t u) :
    u.restricted.length < t.restricted.length := by
  obtain ⟨id, hid, -, rfl⟩ := h
  have hprotected := (mem_publishable_iff.1 hid).2
  rw [restricted_edit_public]
  exact List.length_filter_lt_length_iff_exists.2 ⟨id, mem_restricted hprotected, by simp⟩

/-- Making types public one at a time comes to an end. -/
lemma wellFounded_publishes : WellFounded fun u t => Publishes t u :=
  Subrelation.wf Publishes.restricted_lt (measure fun t : Tree => t.restricted.length).wf

/-- What has been made public one at a time lies in every closed set. -/
theorem exists_openedAt (h : Relation.ReflTransGen Publishes t u) :
    ∃ W, t.OpenedAt W u ∧ W ⊆ t.publishable ∧ ∀ W' ∈ t.closedUnderMention, W ⊆ W' := by
  induction h with
  | refl => exact ⟨∅, .refl _ t, Set.empty_subset _, fun W' _ => Set.empty_subset W'⟩
  | @tail u _ _ hstep ih =>
    obtain ⟨W, hopened, hsub, hleast⟩ := ih
    obtain ⟨id, hid, hmentioned, rfl⟩ := hstep
    rw [hopened.opened.reads Decl.usr fun _ => rfl, hopened.mentionedWith_empty_iff] at hmentioned
    have hpublishable := (hopened.mem_publishable_iff.1 hid).1
    refine ⟨W ∪ {id}, hopened.edit_union (lt_size_of_mem_publishable hpublishable),
      Set.union_subset hsub (Set.singleton_subset_iff.2 hpublishable), fun W' hclosed => ?_⟩
    -- what is mentioned with `W` public is mentioned with more of them public
    have hW := hleast W' hclosed
    have hid' : id ∈ W' := hclosed.2 id hpublishable (hmentioned.mono hW)
    exact Set.union_subset hW (Set.singleton_subset_iff.2 hid')

/-- Where nothing is left to be made public, what has been made public is closed. -/
theorem closed_of_stuck (h : t.OpenedAt W u) (hsub : W ⊆ t.publishable)
    (hstuck : ∀ v, ¬ Publishes u v) : W ∈ t.closedUnderMention := by
  refine ⟨hsub, fun id hid hmentioned => ?_⟩
  by_contra hnew
  refine hstuck _ ⟨id, h.mem_publishable_iff.2 ⟨hid, hnew⟩, ?_, rfl⟩
  rwa [h.opened.reads Decl.usr fun _ => rfl, h.mentionedWith_empty_iff]

lemma exists_isLeast_of_stuck (h : Relation.ReflTransGen Publishes t u)
    (hstuck : ∀ v, ¬ Publishes u v) : ∃ W, t.OpenedAt W u ∧ IsLeast t.closedUnderMention W := by
  obtain ⟨W, hopened, hsub, hleast⟩ := exists_openedAt h
  exact ⟨W, hopened, closed_of_stuck hopened hsub hstuck, hleast⟩

/-- All ways come to the same end. -/
lemma eq_of_stuck (h : Relation.ReflTransGen Publishes t u) (hstuck : ∀ w, ¬ Publishes u w)
    (h' : Relation.ReflTransGen Publishes t v) (hstuck' : ∀ w, ¬ Publishes v w) : v = u := by
  obtain ⟨W, hopened, hleast⟩ := exists_isLeast_of_stuck h hstuck
  obtain ⟨W', hopened', hleast'⟩ := exists_isLeast_of_stuck h' hstuck'
  obtain rfl := hleast.unique hleast'
  exact hopened.unique hopened'

/-! ## The rounds -/

lemma Published.stuck (h : u.Published) (v : Tree) : ¬ Publishes u v := by
  rintro ⟨id, hid, hmentioned, -⟩
  obtain ⟨hnested, hprotected⟩ := mem_publishable_iff.1 hid
  refine h id (mem_mentionedNestedTypes_iff.2 ⟨lt_size_of_mem_publishable hid, hnested, ?_⟩)
    hprotected
  rwa [← mentionedWith_empty_iff]

/-- A round makes public one after another what it has found. -/
lemma publishes_sweep {ids : List Nat} (hnodup : ids.Nodup)
    (hfound : ∀ id ∈ ids, id ∈ t.publishable ∧ t.MentionedWith ∅ (t.decl id).usr) :
    Relation.ReflTransGen Publishes t (Progress.sweep publish ids t).tree := by
  induction ids generalizing t with
  | nil => exact .refl
  | cons id ids ih =>
    obtain ⟨hid, hnodup⟩ := List.nodup_cons.1 hnodup
    obtain ⟨⟨hpublishable, hmentioned⟩, hfound⟩ := List.forall_mem_cons.1 hfound
    have hopened : t.OpenedAt {id} (t.edit id (.setAccess .isPublic)) := by
      simpa using (EditedAt.refl _ t).edit_union (lt_size_of_mem_publishable hpublishable)
    refine .head ⟨id, hpublishable, hmentioned, rfl⟩ (ih hnodup fun i hi => ?_)
    obtain ⟨hpublishable', hmentioned'⟩ := hfound i hi
    have hne : i ∉ ({id} : Set Nat) := ne_of_mem_of_not_mem hi hid
    refine ⟨hopened.mem_publishable_iff.2 ⟨hpublishable', hne⟩, hopened.mentionedWith_empty_iff.2 ?_⟩
    rw [usr_edit]
    exact hmentioned'.mono (Set.empty_subset _)

lemma publishes_publishRounds (t : Tree) (reported : List Nat) :
    Relation.ReflTransGen Publishes t (t.publishRounds reported).tree := by
  induction t, reported using publishRounds.induct with
  | case1 t reported found hnil => rw [(publishRounds_of_nil hnil).1]
  | case2 t reported found secret id ids hcons published ih =>
    rw [(publishRounds_of_cons reported hcons).1]
    refine .trans (publishes_sweep ?_ fun i hi => ?_) ih
    · rw [← hcons]
      exact (t.nodup_walk.filter _).filter _
    · rw [← hcons, List.mem_filter, decide_eq_true_eq] at hi
      obtain ⟨hmem, hprotected⟩ := hi
      obtain ⟨-, hnested, husr⟩ := mem_mentionedNestedTypes_iff.1 hmem
      exact ⟨mem_publishable_iff.2 ⟨hnested, hprotected⟩, mentionedWith_empty_iff.2 husr⟩

/-- What has turned from protected to public. -/
def turnedPublic (t u : Tree) : Set Nat :=
  {id | (t.decl id).access = .isProtected ∧ (u.decl id).access = .isPublic}

lemma OpenedAt.turnedPublic_eq (h : t.OpenedAt W u) (hsub : W ⊆ t.publishable) :
    t.turnedPublic u = W := by
  ext id
  rw [turnedPublic, Set.mem_ofPred_eq, h.access_eq_isPublic_iff]
  constructor
  · rintro ⟨hprotected, hpublic | hid⟩
    · exact absurd (hprotected.symm.trans hpublic) (by decide)
    · exact hid
  · exact fun hid => ⟨(Tree.mem_publishable_iff.1 (hsub hid)).2, .inr hid⟩

/-- The types that the pass makes public are the least closed set, and nothing else is changed.  The
same tree comes of making mentioned types public one at a time, in any order, until none is left. -/
theorem publishNestedTypes_least (t : Tree) :
    IsLeast t.closedUnderMention (t.turnedPublic t.publishNestedTypes.tree) ∧
      t.OpenedAt (t.turnedPublic t.publishNestedTypes.tree) t.publishNestedTypes.tree ∧
      Relation.ReflTransGen Publishes t t.publishNestedTypes.tree ∧
      Acc (fun u v => Publishes v u) t ∧
      ∀ u, Relation.ReflTransGen Publishes t u → (∀ v, ¬ Publishes u v) →
        u = t.publishNestedTypes.tree := by
  have hrounds := publishes_publishRounds t []
  have hstuck := (published_publishNestedTypes t).stuck
  obtain ⟨W, hopened, hleast⟩ := exists_isLeast_of_stuck hrounds hstuck
  rw [publishNestedTypes, hopened.turnedPublic_eq hleast.1.1]
  exact ⟨hleast, hopened, hrounds, wellFounded_publishes.apply t,
    fun u hu hend => eq_of_stuck hrounds hstuck hu hend⟩

/-- The rounds make the outer of the two classes public first; beginning with the other one leads to
the same tree. -/
theorem publishNestedTypes_least_mentionedTree :
    (mentionedTree.edit 3 (.setAccess .isPublic)).edit 2 (.setAccess .isPublic) =
      mentionedTree.publishNestedTypes.tree := by
  obtain ⟨-, -, -, -, hsame⟩ := publishNestedTypes_least mentionedTree
  have hinner : Publishes mentionedTree (mentionedTree.edit 3 (.setAccess .isPublic)) :=
    ⟨3, mem_publishable_iff.2 (by decide +kernel), mentionedWith_empty_iff.2 (by decide +kernel), rfl⟩
  have houter : Publishes (mentionedTree.edit 3 (.setAccess .isPublic))
      ((mentionedTree.edit 3 (.setAccess .isPublic)).edit 2 (.setAccess .isPublic)) :=
    ⟨2, mem_publishable_iff.2 (by decide +kernel), mentionedWith_empty_iff.2 (by decide +kernel), rfl⟩
  refine hsame _ (.tail (.single hinner) houter) (Published.stuck ?_)
  unfold Published
  decide +kernel

end Bindery.Tree
