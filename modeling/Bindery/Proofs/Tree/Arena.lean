import Bindery.Proofs.Tree.Development

/-!
# A tree with stored tables

A tree computes its children, translation units and look-ups from one list.  An `Arena` stores them:
every slot holds a list of children, and there are tables of the identifiers, of the translation
units and of the names in the header.  Adding a declaration updates all four, and an edit touches
none of them.

`Arena.ofTree` fills the tables with what the tree computes.  Changing the tree and changing the
arena come to the same (`Arena.change_ofTree`), so tables that have been kept up to date from the
start never differ from the answers of the tree (`Arena.changed_ofTree`).
-/

namespace Bindery

/-- A declaration with its links. -/
structure Slot where
  decl : Decl
  parent : Option Nat
  children : List Nat
  deriving DecidableEq

/-- Declarations with tables by which they are found. -/
@[ext]
structure Arena where
  slots : Array Slot
  byUsr : Usr → Option Nat
  units : List Nat
  byHeaderName : String → List Nat

namespace Arena

/-- The arena without declarations. -/
def empty : Arena := ⟨#[], fun _ => none, [], fun _ => []⟩

/-- The slots with a new last child of `parent`. -/
def link (slots : Array Slot) (parent : Option Nat) (child : Nat) : Array Slot :=
  match parent with
  | some p => slots.modify p fun slot => { slot with children := slot.children ++ [child] }
  | none => slots

/-- The arena with a declaration added behind all others, and entered in every table. -/
def add (a : Arena) (parent : Option Nat) (decl : Decl) : Arena :=
  let id := a.slots.size
  { slots := (link a.slots parent id).push ⟨decl, parent, []⟩
    byUsr := fun usr => if decl.usr = usr then some id else a.byUsr usr
    units := if parent = none then a.units ++ [id] else a.units
    byHeaderName := fun name =>
      if decl.headerName = name then a.byHeaderName name ++ [id] else a.byHeaderName name }

/-- Adds a declaration, after the same checks as `Tree.insert`. -/
def insert (a : Arena) (parent : Option Nat) (decl : Decl) : Except TreeError Arena :=
  let parentKind := parent.bind fun p => a.slots[p]?.map (·.decl.kind)
  if parent.all (· < a.slots.size) && Kind.canContain parentKind decl.kind then
    if a.byUsr decl.usr = none then .ok (a.add parent decl) else .error (.duplicateUsr decl.usr)
  else
    .error (.invalidParent parentKind decl.kind decl.name)

/-- Changes a declaration where it stands. -/
def edit (a : Arena) (id : Nat) (edit : Edit) : Arena :=
  { a with slots := a.slots.modify id fun slot => { slot with decl := edit.apply slot.decl } }

/-- The arena after a change.  An addition that is refused changes nothing. -/
def change (a : Arena) : Change → Arena
  | .insert parent decl =>
    match a.insert parent decl with
    | .ok b => b
    | .error _ => a
  | .edit id edit => a.edit id edit

/-- The arena after a list of changes. -/
def changed (a : Arena) (changes : List Change) : Arena := changes.foldl change a

/-! ## The tables of a tree -/

/-- The arena whose tables hold what a tree computes. -/
def ofTree (t : Tree) : Arena where
  slots := (Array.range t.size).map fun id => ⟨t.decl id, t.parent? id, t.children id⟩
  byUsr := t.get?
  units := t.translationUnits
  byHeaderName := t.declaredAs

variable {t u : Tree}

lemma size_slots_ofTree (t : Tree) : (ofTree t).slots.size = t.size := by simp [ofTree]

lemma getElem?_slots_ofTree (t : Tree) (id : Nat) :
    (ofTree t).slots[id]? =
      if id < t.size then some ⟨t.decl id, t.parent? id, t.children id⟩ else none := by
  by_cases h : id < t.size
  · simp [ofTree, h]
  · simp [ofTree, h]

lemma ofTree_empty : ofTree Tree.empty = empty := by
  refine Arena.ext (by simp [ofTree, empty, Tree.size, Tree.empty]) (funext fun usr => ?_) rfl
    (funext fun name => rfl)
  exact Tree.get?_eq_none_iff.2 fun id hid => absurd hid (Nat.not_lt_zero id)

lemma kind?_slots_ofTree (t : Tree) (parent : Option Nat) :
    (parent.bind fun p => (ofTree t).slots[p]?.map (·.decl.kind)) = parent.bind t.kind? := by
  cases parent with
  | none => rfl
  | some p =>
    simp only [Option.bind_some, getElem?_slots_ofTree]
    by_cases h : p < t.size
    · rw [if_pos h, Tree.kind?_of_lt h]
      rfl
    · rw [if_neg h, Tree.kind?, Array.getElem?_eq_none (Nat.le_of_not_lt h)]
      rfl

lemma size_link (slots : Array Slot) (parent : Option Nat) (child : Nat) :
    (link slots parent child).size = slots.size := by
  unfold link
  cases parent <;> simp

lemma getElem?_link (slots : Array Slot) (parent : Option Nat) (child i : Nat) :
    (link slots parent child)[i]? = slots[i]?.map fun slot =>
      { slot with children := slot.children ++ if parent = some i then [child] else [] } := by
  unfold link
  cases parent with
  | none => simp
  | some p =>
    simp only [Array.getElem?_modify, Option.some.injEq]
    split <;> simp

lemma slots_add_ofTree {parent : Option Nat} {decl : Decl} (h : t.insert parent decl = .ok u) :
    ((ofTree t).add parent decl).slots = (ofTree u).slots := by
  refine Array.ext_getElem? fun i => ?_
  rw [getElem?_slots_ofTree, Tree.size_of_insert h, Tree.decl_of_insert h,
    Tree.parent?_of_insert h, Tree.children_of_insert h]
  simp only [add, size_slots_ofTree, Array.getElem?_push, size_link, getElem?_link,
    getElem?_slots_ofTree]
  by_cases hi : i = t.size
  · -- The new declaration has no children, and it is not its own parent.
    have hparent : parent ≠ some i := fun hp =>
      absurd ((Tree.admits_iff.1 (Tree.insert_eq_ok_iff.1 h).1).1 i hp) (by omega)
    have hchildren : t.children i = [] := Tree.children_of_size_le (by omega)
    rw [if_pos hi, if_pos (by omega), if_pos hi, if_pos hi, hchildren, if_neg hparent]
    rfl
  · rw [if_neg hi, if_neg hi, if_neg hi]
    by_cases hlt : i < t.size
    · rw [if_pos hlt, if_pos (show i < t.size + 1 by omega)]
      rfl
    · rw [if_neg hlt, if_neg (show ¬ i < t.size + 1 by omega)]
      rfl

lemma add_ofTree {parent : Option Nat} {decl : Decl} (h : t.insert parent decl = .ok u) :
    (ofTree t).add parent decl = ofTree u := by
  refine Arena.ext (slots_add_ofTree h) (funext fun usr => ?_) ?_ (funext fun name => ?_)
  · rw [show (ofTree u).byUsr usr = u.get? usr from rfl, Tree.get?_of_insert h]
    simp only [add, size_slots_ofTree]
    rfl
  · rw [show (ofTree u).units = u.translationUnits from rfl, Tree.translationUnits_of_insert h]
    simp only [add, size_slots_ofTree]
    split <;> simp [ofTree]
  · rw [show (ofTree u).byHeaderName name = u.declaredAs name from rfl, Tree.declaredAs_of_insert h]
    simp only [add, size_slots_ofTree]
    split <;> simp [ofTree]

/-- Adding a declaration to the tables of a tree gives the tables of the tree it is added to, or the
same failure. -/
lemma insert_ofTree (t : Tree) (parent : Option Nat) (decl : Decl) :
    (ofTree t).insert parent decl = (t.insert parent decl).map ofTree := by
  unfold insert
  rw [kind?_slots_ofTree, size_slots_ofTree]
  by_cases hplace : t.admits parent decl.kind = true
  · by_cases hfresh : t.get? decl.usr = none
    · obtain ⟨u, hu⟩ := Tree.exists_insert_eq_ok hplace hfresh
      have hplace' := hplace
      rw [Tree.admits] at hplace'
      rw [if_pos hplace', if_pos (show (ofTree t).byUsr decl.usr = none from hfresh), hu,
        add_ofTree hu]
      rfl
    · have hplace' := hplace
      rw [Tree.admits] at hplace'
      rw [if_pos hplace', if_neg (show ¬ (ofTree t).byUsr decl.usr = none from hfresh), Tree.insert,
        dif_pos hplace, dif_neg hfresh]
      rfl
  · have hplace' := hplace
    rw [Tree.admits] at hplace'
    rw [if_neg hplace', Tree.insert, dif_neg hplace]
    rfl

lemma edit_ofTree (t : Tree) (id : Nat) (edit : Edit) :
    (ofTree t).edit id edit = ofTree (t.edit id edit) := by
  refine Arena.ext (Array.ext_getElem? fun i => ?_) (funext fun usr => ?_) ?_
    (funext fun name => ?_)
  · rw [getElem?_slots_ofTree, Tree.size_edit, Tree.decl_edit, Tree.parent?_edit,
      Tree.children_edit]
    simp only [Arena.edit, Array.getElem?_modify, getElem?_slots_ofTree]
    by_cases hlt : i < t.size <;> by_cases hid : id = i <;> simp [hlt, hid]
  · exact (Tree.get?_edit t id edit usr).symm
  · exact (Tree.translationUnits_edit t id edit).symm
  · exact (Tree.declaredAs_edit t id edit name).symm

theorem change_ofTree (t : Tree) (c : Change) : (ofTree t).change c = ofTree (t.change c) := by
  cases c with
  | edit id edit => exact edit_ofTree t id edit
  | insert parent decl =>
    simp only [change, Tree.change, insert_ofTree]
    cases t.insert parent decl <;> rfl

/-- Tables that are kept up to date with a tree stay the tables of that tree. -/
theorem changed_ofTree (t : Tree) (changes : List Change) :
    (ofTree t).changed changes = ofTree (t.changed changes) := by
  induction changes generalizing t with
  | nil => rfl
  | cons c changes ih =>
    rw [changed, List.foldl_cons, change_ofTree, ← changed, ih]
    rfl

end Arena

end Bindery
