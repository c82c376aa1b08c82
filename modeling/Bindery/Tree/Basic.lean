import Bindery.Decl.Edit
import Bindery.Tree.Error

/-!
# The declaration tree

All declarations of all translation units, in the order in which they were added.  A declaration is
addressed by its position in that order, its *id*, or by its identifier.

The tree stores for each declaration its parent and nothing else about its place.  Children,
translation units and look-ups are read off that one list, so they cannot disagree with each other.
The invariants are part of the type:

* a parent comes before its children (`parent_lt`);
* each declaration stands where its kind may stand (`contained`);
* no two declarations have the same identifier (`usr_inj`).

A tree changes in two ways only: `insert` adds a declaration at the end, `edit` changes one in
place.  The lemmas at the end say what each does to what can be asked about a tree.
-/

namespace Bindery

/-- A declaration and its place. -/
structure Entry where
  parent : Option Nat
  decl : Decl
  deriving DecidableEq, Inhabited

/-- A tree of declarations. -/
@[ext]
structure Tree where
  entries : Array Entry
  parent_lt : ∀ {i : Nat} {e : Entry} {p : Nat},
    entries[i]? = some e → e.parent = some p → p < i
  contained : ∀ {i : Nat} {e : Entry}, entries[i]? = some e →
    Kind.canContain (e.parent.bind fun p => entries[p]?.map (·.decl.kind)) e.decl.kind = true
  usr_inj : ∀ {i j : Nat} {e f : Entry}, entries[i]? = some e → entries[j]? = some f →
    e.decl.usr = f.decl.usr → i = j

namespace Tree

/-! ## Asking a tree -/

/-- The tree without declarations. -/
def empty : Tree where
  entries := #[]
  parent_lt := by simp
  contained := by simp
  usr_inj := by simp

instance : Inhabited Tree := ⟨empty⟩

/-- How many declarations the tree has. -/
def size (t : Tree) : Nat := t.entries.size

/-- The positions of all declarations, in order of insertion. -/
def ids (t : Tree) : List Nat := List.range t.size

/-- The declaration at a position.  A position outside the tree holds a nameless one. -/
def decl (t : Tree) (id : Nat) : Decl := (t.entries[id]?.map (·.decl)).getD default

/-- The kind of the declaration at a position of the tree. -/
def kind? (t : Tree) (id : Nat) : Option Kind := t.entries[id]?.map (·.decl.kind)

/-- The declaration that the one at a position lies directly inside of. -/
def parent? (t : Tree) (id : Nat) : Option Nat := t.entries[id]?.bind (·.parent)

/-- The position of the declaration with an identifier. -/
def get? (t : Tree) (usr : Usr) : Option Nat := t.entries.findIdx? (·.decl.usr = usr)

/-- The declarations directly inside the one at `id`, in order of insertion.  They were all added
after it. -/
def children (t : Tree) (id : Nat) : List Nat :=
  (List.range' (id + 1) (t.size - (id + 1))).filter fun c => t.parent? c = some id

/-- The declarations directly inside the one at `id` that are of a kind. -/
def childrenOfKind (t : Tree) (id : Nat) (kind : Kind) : List Nat :=
  (t.children id).filter fun c => (t.decl c).kind = kind

/-- The declarations that lie in no other: the translation units, in order of insertion. -/
def translationUnits (t : Tree) : List Nat := t.ids.filter fun id => t.parent? id = none

/-! ## Changing a tree -/

/-- Whether a declaration of a kind may be added at a place. -/
def admits (t : Tree) (parent : Option Nat) (kind : Kind) : Bool :=
  parent.all (· < t.size) && Kind.canContain (parent.bind t.kind?) kind

/-- Every entry of a tree that has grown by one is an old one or the new one. -/
theorem getElem?_push_cases {entries : Array Entry} {new e : Entry} {i : Nat}
    (h : (entries.push new)[i]? = some e) :
    (i < entries.size ∧ entries[i]? = some e) ∨ (i = entries.size ∧ e = new) := by
  rw [Array.getElem?_push] at h
  split at h
  · next hi => exact .inr ⟨hi, (Option.some.inj h).symm⟩
  · exact .inl ⟨(Array.getElem?_eq_some_iff.1 h).1, h⟩

/-- Adds a declaration as the last child of `parent`, or as a translation unit.  It is refused
where its kind may not stand, and if its identifier is taken; the first reason goes first. -/
def insert (t : Tree) (parent : Option Nat) (decl : Decl) : Except TreeError Tree :=
  if place : t.admits parent decl.kind = true then
    if fresh : t.get? decl.usr = none then
      .ok {
        entries := t.entries.push ⟨parent, decl⟩
        parent_lt := by
          intro i e p h hp
          rcases getElem?_push_cases h with ⟨-, h⟩ | ⟨rfl, rfl⟩
          · exact t.parent_lt h hp
          · simp only [admits, Bool.and_eq_true] at place
            subst hp
            exact of_decide_eq_true place.1
        contained := by
          intro i e h
          have lift : ∀ p, p < t.entries.size →
              (t.entries.push ⟨parent, decl⟩)[p]? = t.entries[p]? := fun p hp => by
            rw [Array.getElem?_push, if_neg (by omega)]
          rcases getElem?_push_cases h with ⟨hi, h⟩ | ⟨rfl, rfl⟩
          · have old := t.contained h
            cases hp : e.parent with
            | none => simpa [hp] using old
            | some p =>
              have := t.parent_lt h hp
              simpa [hp, lift p (by omega)] using old
          · simp only [admits, Bool.and_eq_true] at place
            cases parent with
            | none => simpa using place.2
            | some p =>
              have hp : p < t.entries.size := of_decide_eq_true place.1
              simpa [kind?, lift p hp] using place.2
        usr_inj := by
          intro i j e f hi hj same
          have taken : ∀ {k : Nat} {g : Entry}, t.entries[k]? = some g → g.decl.usr ≠ decl.usr := by
            intro k g hk hg
            have := Array.findIdx?_eq_none_iff.1 fresh g (Array.mem_of_getElem? hk)
            simp [hg] at this
          rcases getElem?_push_cases hi with ⟨-, hi⟩ | ⟨rfl, rfl⟩ <;>
            rcases getElem?_push_cases hj with ⟨-, hj⟩ | ⟨rfl, rfl⟩
          · exact t.usr_inj hi hj same
          · exact absurd same (taken hi)
          · exact absurd same.symm (taken hj)
          · rfl }
    else
      .error (.duplicateUsr decl.usr)
  else
    .error (.invalidParent (parent.bind t.kind?) decl.kind decl.name)

/-- The entries after an edit of the declaration at `id`. -/
def editEntries (entries : Array Entry) (id : Nat) (edit : Edit) : Array Entry :=
  entries.modify id fun e => { e with decl := edit.apply e.decl }

theorem getElem?_editEntries (entries : Array Entry) (id : Nat) (edit : Edit) (i : Nat) :
    (editEntries entries id edit)[i]? =
      if id = i then entries[i]?.map fun e => { e with decl := edit.apply e.decl }
      else entries[i]? := by
  simp [editEntries, Array.getElem?_modify]

/-- An entry of the edited entries has the place of the entry it came from, and its declaration has
the same identifier and kind. -/
theorem exists_of_getElem?_editEntries {entries : Array Entry} {id : Nat} {edit : Edit} {i : Nat}
    {e : Entry} (h : (editEntries entries id edit)[i]? = some e) :
    ∃ old, entries[i]? = some old ∧ e.parent = old.parent ∧ e.decl.usr = old.decl.usr ∧
      e.decl.kind = old.decl.kind := by
  rw [getElem?_editEntries] at h
  split at h
  · obtain ⟨old, hold, rfl⟩ := Option.map_eq_some_iff.1 h
    exact ⟨old, hold, rfl, by simp, by simp⟩
  · exact ⟨e, h, rfl, rfl, rfl⟩

theorem map_kind_editEntries (entries : Array Entry) (id : Nat) (edit : Edit) (i : Nat) :
    (editEntries entries id edit)[i]?.map (·.decl.kind) = entries[i]?.map (·.decl.kind) := by
  rw [getElem?_editEntries]
  split <;> simp [Function.comp_def]

/-- Changes the declaration at `id`, if there is one. -/
def edit (t : Tree) (id : Nat) (edit : Edit) : Tree where
  entries := editEntries t.entries id edit
  parent_lt := by
    intro i e p h hp
    obtain ⟨old, hold, hparent, -, -⟩ := exists_of_getElem?_editEntries h
    exact t.parent_lt hold (hparent ▸ hp)
  contained := by
    intro i e h
    obtain ⟨old, hold, hparent, -, hkind⟩ := exists_of_getElem?_editEntries h
    simp only [hparent, hkind, map_kind_editEntries]
    exact t.contained hold
  usr_inj := by
    intro i j e f hi hj same
    obtain ⟨old, hold, -, husr, -⟩ := exists_of_getElem?_editEntries hi
    obtain ⟨old', hold', -, husr', -⟩ := exists_of_getElem?_editEntries hj
    exact t.usr_inj hold hold' (husr ▸ husr' ▸ same)

/-! ## What an edit changes -/

@[simp]
theorem size_edit (t : Tree) (id : Nat) (edit : Edit) : (t.edit id edit).size = t.size := by
  simp [size, Tree.edit, editEntries]

/-- An edit changes the one declaration it is for, if there is one. -/
theorem decl_edit (t : Tree) (id : Nat) (edit : Edit) (i : Nat) :
    (t.edit id edit).decl i =
      if id = i ∧ i < t.size then edit.apply (t.decl i) else t.decl i := by
  unfold decl Tree.edit
  rw [getElem?_editEntries]
  by_cases hi : id = i
  · subst hi
    by_cases hs : id < t.entries.size
    · simp [size, hs]
    · simp [size, hs]
  · simp [hi]

@[simp]
theorem parent?_edit (t : Tree) (id : Nat) (edit : Edit) (i : Nat) :
    (t.edit id edit).parent? i = t.parent? i := by
  unfold parent? Tree.edit
  rw [getElem?_editEntries]
  split
  · cases t.entries[i]? <;> rfl
  · rfl

@[simp]
theorem ids_edit (t : Tree) (id : Nat) (edit : Edit) : (t.edit id edit).ids = t.ids := by
  simp [ids]

@[simp]
theorem children_edit (t : Tree) (id : Nat) (edit : Edit) (i : Nat) :
    (t.edit id edit).children i = t.children i := by
  simp [children]

@[simp]
theorem translationUnits_edit (t : Tree) (id : Nat) (edit : Edit) :
    (t.edit id edit).translationUnits = t.translationUnits := by
  simp [translationUnits]

/-! ## Where declarations stand -/

/-- A child comes behind its parent, and is linked to it. -/
theorem mem_children {t : Tree} {id c : Nat} (h : c ∈ t.children id) :
    id < c ∧ c < t.size ∧ t.parent? c = some id := by
  simp only [children, List.mem_filter, List.mem_range'_1, decide_eq_true_eq] at h
  exact ⟨by omega, by omega, h.2⟩

theorem get?_eq_some {t : Tree} {usr : Usr} {id : Nat} (h : t.get? usr = some id) :
    id < t.size ∧ (t.decl id).usr = usr := by
  obtain ⟨hid, husr, -⟩ := Array.findIdx?_eq_some_iff_getElem.1 h
  exact ⟨hid, by simpa [decl, hid] using husr⟩

theorem parent?_lt {t : Tree} {id p : Nat} (h : t.parent? id = some p) : p < id := by
  obtain ⟨e, he, hp⟩ := Option.bind_eq_some_iff.1 h
  exact t.parent_lt he hp

end Tree

end Bindery
