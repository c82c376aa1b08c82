import Bindery.Progress

/-!
# Nested types that the interface needs

A protected type inside a class is made public if the public interface mentions it.  Making a
typedef public can bring up further types, so this goes on in rounds until a round finds nothing
more.  A private type is never made public; that the interface mentions one is reported once.

The rounds end because each of them leaves fewer protected declarations
(`restricted_sweep_publish_lt`).
-/

namespace Bindery

namespace Kind

/-- Declarations that mention the types by which they are used. -/
def isInterface : Kind → Bool
  | .function | .method | .property | .globalVariable | .typedef => true
  | _ => false

end Kind

namespace Tree

/-! ## What the interface mentions -/

/-- The declarations that the public interface mentions. -/
def mentioned (t : Tree) : List Usr :=
  (t.walk.filter fun id => (t.decl id).kind.isInterface && t.isVisible id).flatMap fun id =>
    (t.decl id).references

/-- Whether a declaration is a type directly inside a class and is not kept out. -/
def isTypeInClass (t : Tree) (id : Nat) : Bool :=
  (t.decl id).kind.isType && !(t.decl id).ignored &&
    (t.parent? id).any fun p => (t.decl p).kind = .classType

/-- The nested types that the public interface mentions. -/
def mentionedNestedTypes (t : Tree) : List Nat :=
  let usrs := t.mentioned
  t.walk.filter fun id => t.isTypeInClass id && usrs.contains (t.decl id).usr

/-! ## Making types public -/

/-- Makes a nested type public. -/
def publish (t : Tree) (id : Nat) : Progress :=
  .edited t id (.setAccess .isPublic)
    [⟨.info, "Making nested type \"" ++ t.qualifiedName id ++ "\" public"⟩]

/-- The warning that a private type is mentioned. -/
def privateTypeWarning (t : Tree) (id : Nat) : Message :=
  ⟨.warn, "Private nested type \"" ++ t.qualifiedName id ++
    "\" is used by the public API but cannot be made public"⟩

/-- The protected declarations of a tree. -/
def restricted (t : Tree) : List Nat :=
  t.ids.filter fun id => (t.decl id).access = .isProtected

theorem mem_restricted {t : Tree} {id : Nat} (h : (t.decl id).access = .isProtected) :
    id ∈ t.restricted := by
  refine List.mem_filter.2 ⟨List.mem_range.2 ?_, decide_eq_true h⟩
  by_cases hid : id < t.entries.size
  · exact hid
  · rw [decl, Array.getElem?_eq_none (Nat.le_of_not_lt hid)] at h
    exact absurd h (by decide)

theorem restricted_edit_public (t : Tree) (id : Nat) :
    (t.edit id (.setAccess .isPublic)).restricted = t.restricted.filter (· ≠ id) := by
  simp only [restricted, ids_edit, List.filter_filter]
  refine List.filter_congr fun i hi => ?_
  rw [decl_edit]
  by_cases h : id = i
  · have : i < t.size := by simpa [ids] using hi
    simp [h, this, Edit.apply]
  · simp [h, Ne.symm h]

theorem restricted_sweep_publish_le (ids : List Nat) (t : Tree) :
    (Progress.sweep publish ids t).tree.restricted.length ≤ t.restricted.length := by
  induction ids generalizing t with
  | nil => simp [Progress.unchanged]
  | cons id ids ih =>
    refine Nat.le_trans (ih (t.publish id).tree) ?_
    simp only [publish, Progress.edited, restricted_edit_public]
    exact List.length_filter_le _ _

theorem restricted_sweep_publish_lt {t : Tree} {id : Nat} {ids : List Nat}
    (h : id ∈ t.restricted) :
    (Progress.sweep publish (id :: ids) t).tree.restricted.length < t.restricted.length := by
  refine Nat.lt_of_le_of_lt (restricted_sweep_publish_le ids (t.publish id).tree) ?_
  simp only [publish, Progress.edited, restricted_edit_public]
  exact List.length_filter_lt_length_iff_exists.2 ⟨id, h, by simp⟩

/-- Runs rounds until nothing is left to be made public.  `reported` are the private types that
have been reported. -/
def publishRounds (t : Tree) (reported : List Nat) : Progress :=
  let found := t.mentionedNestedTypes
  let secret := found.filter fun id =>
    (t.decl id).access = .isPrivate && !reported.contains id
  let warnings := secret.map t.privateTypeWarning
  match _h : found.filter fun id => (t.decl id).access = .isProtected with
  | [] => ⟨t, 0, warnings⟩
  | id :: ids =>
    let published := Progress.sweep publish (id :: ids) t
    let rest := publishRounds published.tree (reported ++ secret)
    ⟨rest.tree, published.changes + rest.changes, warnings ++ published.log ++ rest.log⟩
termination_by t.restricted.length
decreasing_by
  have first : id ∈ found.filter fun id => (t.decl id).access = .isProtected :=
    _h ▸ List.mem_cons_self
  exact restricted_sweep_publish_lt (mem_restricted (of_decide_eq_true (List.mem_filter.1 first).2))

/-- Makes the protected nested types public that the public interface mentions. -/
def publishNestedTypes (t : Tree) : Progress := t.publishRounds []

end Tree

end Bindery
