import Bindery.Tree.Lookup
import Mathlib.Data.List.Nodup

/-!
# What can be read off a tree

A tree stores its declarations with their parents, and everything else that can be asked about it
is computed from that list.  This file says what the answers are, as equivalences, and how `insert`
changes each of them.  With `decl_edit` and its companions of `Tree.Basic` these are all the facts
about the storage; later files cite them and never look at the array again.

* `ext_reads`: a tree is determined by its size, its parents and its declarations;
* `get?_eq_some_iff`, `mem_children_iff`, `mem_translationUnits_iff`, `mem_declaredAs_iff`: the
  views;
* `insert_eq_ok_iff`: when a declaration can be added and what the tree is then.
-/

namespace Bindery.Tree

/-! ## Declarations and parents -/

/-- What is stored in a slot can be told from the two views of it. -/
lemma getElem?_entries (t : Tree) (id : Nat) :
    t.entries[id]? = if id < t.size then some ⟨t.parent? id, t.decl id⟩ else none := by
  unfold parent? decl size
  by_cases h : id < t.entries.size
  · simp [h]
  · simp [h]

/-- Behind the last slot every read gives the default declaration, which is a translation unit. -/
lemma decl_of_size_le {t : Tree} {id : Nat} (h : t.size ≤ id) : t.decl id = default := by
  simp [decl, Array.getElem?_eq_none h]

lemma parent?_of_size_le {t : Tree} {id : Nat} (h : t.size ≤ id) : t.parent? id = none := by
  simp [parent?, Array.getElem?_eq_none h]

lemma kind?_of_lt {t : Tree} {id : Nat} (h : id < t.size) :
    t.kind? id = some (t.decl id).kind := by
  have hid : id < t.entries.size := h
  simp [kind?, decl, hid]

lemma lt_size_of_parent? {t : Tree} {id p : Nat} (h : t.parent? id = some p) : id < t.size := by
  by_contra hid
  rw [parent?_of_size_le (by omega)] at h
  exact absurd h (by simp)

/-- A declaration whose kind is not that of the nameless one is in the tree. -/
lemma lt_size_of_kind {t : Tree} {id : Nat} (h : (t.decl id).kind ≠ .translationUnit) :
    id < t.size := by
  by_contra hid
  rw [decl_of_size_le (by omega)] at h
  exact h rfl

/-- Two trees of one size with the same parents and declarations are equal. -/
theorem ext_reads {t u : Tree} (hsize : u.size = t.size)
    (hparent : ∀ id < t.size, u.parent? id = t.parent? id)
    (hdecl : ∀ id < t.size, u.decl id = t.decl id) : u = t := by
  refine Tree.ext (Array.ext_getElem? fun id => ?_)
  rw [getElem?_entries, getElem?_entries, hsize]
  split
  · next hid => rw [hparent id hid, hdecl id hid]
  · rfl

/-- Every declaration stands where its kind may stand. -/
lemma canContain_parent? (t : Tree) {id : Nat} (h : id < t.size) :
    Kind.canContain ((t.parent? id).map fun p => (t.decl p).kind) (t.decl id).kind = true := by
  have hentry : t.entries[id]? = some ⟨t.parent? id, t.decl id⟩ := by
    rw [getElem?_entries, if_pos h]
  have hstands := t.contained hentry
  cases hp : t.parent? id with
  | none => simpa [hp] using hstands
  | some p =>
    have hlt : p < t.size := Nat.lt_trans (parent?_lt hp) h
    have hkind : t.entries[p]?.map (·.decl.kind) = some (t.decl p).kind := kind?_of_lt hlt
    simpa [hp, hkind] using hstands

/-- Only translation units stand outside of everything. -/
lemma kind_of_parent?_none {t : Tree} {id : Nat} (h : t.parent? id = none) :
    (t.decl id).kind = .translationUnit := by
  by_cases hid : id < t.size
  · have hstands := t.canContain_parent? hid
    rw [h] at hstands
    revert hstands
    cases (t.decl id).kind <;> simp [Kind.canContain]
  · rw [decl_of_size_le (by omega)]
    rfl

/-- A method lies in a class. -/
lemma exists_class_of_method {t : Tree} {id : Nat} (h : (t.decl id).kind = .method) :
    ∃ p, t.parent? id = some p ∧ (t.decl p).kind = .classType := by
  have hid : id < t.size := lt_size_of_kind (by rw [h]; decide)
  have hstands := t.canContain_parent? hid
  cases hp : t.parent? id with
  | none => simp [hp, h, Kind.canContain] at hstands
  | some p =>
    refine ⟨p, rfl, ?_⟩
    rw [hp, Option.map_some, h] at hstands
    revert hstands
    cases (t.decl p).kind <;> simp [Kind.canContain]

/-! ## The views -/

/-- A look-up finds the one declaration that has the identifier. -/
theorem get?_eq_some_iff {t : Tree} {usr : Usr} {id : Nat} :
    t.get? usr = some id ↔ id < t.size ∧ (t.decl id).usr = usr := by
  constructor
  · exact get?_eq_some
  · rintro ⟨hid, husr⟩
    have hentry : t.entries[id]? = some ⟨t.parent? id, t.decl id⟩ := by
      rw [getElem?_entries, if_pos hid]
    cases hget : t.get? usr with
    | none =>
      have := Array.findIdx?_eq_none_iff.1 hget _ (Array.mem_of_getElem? hentry)
      simp [husr] at this
    | some other =>
      obtain ⟨hother, husr'⟩ := get?_eq_some hget
      have hentry' : t.entries[other]? = some ⟨t.parent? other, t.decl other⟩ := by
        rw [getElem?_entries, if_pos hother]
      rw [t.usr_inj hentry' hentry (husr'.trans husr.symm)]

/-- A look-up fails only if no declaration has the identifier. -/
lemma get?_eq_none_iff {t : Tree} {usr : Usr} :
    t.get? usr = none ↔ ∀ id < t.size, (t.decl id).usr ≠ usr := by
  constructor
  · intro h id hid husr
    rw [get?_eq_some_iff.2 ⟨hid, husr⟩] at h
    exact absurd h (by simp)
  · intro h
    cases hget : t.get? usr with
    | none => rfl
    | some id =>
      obtain ⟨hid, husr⟩ := get?_eq_some hget
      exact absurd husr (h id hid)

/-- No two declarations have the same identifier. -/
lemma eq_of_usr_eq {t : Tree} {i j : Nat} (hi : i < t.size) (hj : j < t.size)
    (h : (t.decl i).usr = (t.decl j).usr) : i = j := by
  have hget := get?_eq_some_iff.2 ⟨hi, h⟩
  rw [get?_eq_some_iff.2 ⟨hj, rfl⟩] at hget
  exact (Option.some.inj hget).symm

/-- The children of a declaration are those that have it as their parent. -/
theorem mem_children_iff {t : Tree} {id c : Nat} :
    c ∈ t.children id ↔ t.parent? c = some id := by
  constructor
  · exact fun h => (mem_children h).2.2
  · intro h
    have hlt := parent?_lt h
    have hsize := lt_size_of_parent? h
    simp only [children, List.mem_filter, List.mem_range'_1, decide_eq_true_eq]
    exact ⟨by omega, h⟩

/-- Children stand in the order of insertion. -/
lemma pairwise_lt_children (t : Tree) (id : Nat) : (t.children id).Pairwise (· < ·) :=
  List.Pairwise.filter _ List.pairwise_lt_range'

lemma nodup_children (t : Tree) (id : Nat) : (t.children id).Nodup :=
  (t.pairwise_lt_children id).imp Nat.ne_of_lt

lemma children_of_size_le {t : Tree} {id : Nat} (h : t.size ≤ id) : t.children id = [] := by
  rw [List.eq_nil_iff_forall_not_mem]
  intro c hc
  have := mem_children hc
  omega

lemma mem_childrenOfKind_iff {t : Tree} {id c : Nat} {kind : Kind} :
    c ∈ t.childrenOfKind id kind ↔ t.parent? c = some id ∧ (t.decl c).kind = kind := by
  rw [childrenOfKind, List.mem_filter, mem_children_iff, decide_eq_true_eq]

lemma mem_ids_iff {t : Tree} {id : Nat} : id ∈ t.ids ↔ id < t.size := List.mem_range

theorem mem_translationUnits_iff {t : Tree} {id : Nat} :
    id ∈ t.translationUnits ↔ id < t.size ∧ t.parent? id = none := by
  rw [translationUnits, List.mem_filter, mem_ids_iff, decide_eq_true_eq]

lemma pairwise_lt_translationUnits (t : Tree) : t.translationUnits.Pairwise (· < ·) :=
  List.Pairwise.filter _ List.pairwise_lt_range

theorem mem_declaredAs_iff {t : Tree} {name : String} {id : Nat} :
    id ∈ t.declaredAs name ↔ id < t.size ∧ (t.decl id).headerName = name := by
  rw [declaredAs, List.mem_filter, mem_ids_iff, decide_eq_true_eq]

lemma pairwise_lt_declaredAs (t : Tree) (name : String) : (t.declaredAs name).Pairwise (· < ·) :=
  List.Pairwise.filter _ List.pairwise_lt_range

/-! ## Editing a declaration -/

/-- An edit leaves every other declaration alone. -/
lemma decl_edit_of_ne {t : Tree} {id i : Nat} (h : id ≠ i) (edit : Edit) :
    (t.edit id edit).decl i = t.decl i := by
  rw [decl_edit, if_neg fun heq => h heq.1]

/-- An edit that does nothing to the declaration does nothing to the tree. -/
lemma edit_eq_self {t : Tree} {id : Nat} {edit : Edit} (h : edit.apply (t.decl id) = t.decl id) :
    t.edit id edit = t := by
  refine ext_reads (size_edit t id edit) (fun i _ => parent?_edit t id edit i) fun i _ => ?_
  rw [decl_edit]
  split
  · next hi => rw [← hi.1, h]
  · rfl

/-- No edit changes an identifier, so look-ups by identifier survive (`get?_edit`). -/
lemma usr_edit (t : Tree) (id : Nat) (edit : Edit) (i : Nat) :
    ((t.edit id edit).decl i).usr = (t.decl i).usr := by
  rw [decl_edit]
  split
  · exact Edit.usr_apply edit _
  · rfl

/-- No edit changes the name in the header, so look-ups by that name survive. -/
lemma headerName_edit (t : Tree) (id : Nat) (edit : Edit) (i : Nat) :
    ((t.edit id edit).decl i).headerName = (t.decl i).headerName := by
  rw [decl_edit]
  split
  · exact Edit.headerName_apply edit _
  · rfl

lemma get?_edit (t : Tree) (id : Nat) (edit : Edit) (usr : Usr) :
    (t.edit id edit).get? usr = t.get? usr := by
  ext i
  rw [get?_eq_some_iff, get?_eq_some_iff, size_edit, usr_edit]

lemma declaredAs_edit (t : Tree) (id : Nat) (edit : Edit) (name : String) :
    (t.edit id edit).declaredAs name = t.declaredAs name := by
  simp only [declaredAs, ids_edit, headerName_edit]

/-! ## Adding a declaration -/

/-- There is room for a declaration if the parent exists and may contain its kind. -/
lemma admits_iff {t : Tree} {parent : Option Nat} {kind : Kind} :
    t.admits parent kind = true ↔
      (∀ p, parent = some p → p < t.size) ∧
        Kind.canContain (parent.map fun p => (t.decl p).kind) kind = true := by
  cases parent with
  | none => simp [admits]
  | some p =>
    by_cases hp : p < t.size
    · simp [admits, hp, kind?_of_lt hp]
    · simp [admits, hp]

/-- An addition succeeds exactly if there is room and the identifier is new; it appends one slot. -/
theorem insert_eq_ok_iff {t u : Tree} {parent : Option Nat} {decl : Decl} :
    t.insert parent decl = .ok u ↔
      t.admits parent decl.kind = true ∧ t.get? decl.usr = none ∧
        u.entries = t.entries.push ⟨parent, decl⟩ := by
  unfold insert
  split
  · next place =>
    split
    · next fresh =>
      simp only [Except.ok.injEq, place, fresh, true_and]
      exact ⟨fun h => by rw [← h], fun h => Tree.ext h.symm⟩
    · next taken => simp [taken]
  · next place => simp [place]

/-- Nothing stands in the way of a declaration under a new identifier at a place for its kind. -/
lemma exists_insert_eq_ok {t : Tree} {parent : Option Nat} {decl : Decl}
    (hplace : t.admits parent decl.kind = true) (hfresh : t.get? decl.usr = none) :
    ∃ u, t.insert parent decl = .ok u := by
  unfold insert
  rw [dif_pos hplace, dif_pos hfresh]
  exact ⟨_, rfl⟩

section Inserted

variable {t u : Tree} {parent : Option Nat} {decl : Decl}

lemma size_of_insert (h : t.insert parent decl = .ok u) : u.size = t.size + 1 := by
  simp [size, (insert_eq_ok_iff.1 h).2.2]

/-- An addition leaves every old declaration as it is. -/
lemma decl_of_insert (h : t.insert parent decl = .ok u) (id : Nat) :
    u.decl id = if id = t.size then decl else t.decl id := by
  by_cases hid : id = t.entries.size
  · simp [Tree.decl, (insert_eq_ok_iff.1 h).2.2, size, hid]
  · simp [Tree.decl, (insert_eq_ok_iff.1 h).2.2, size, hid, Array.getElem?_push]

lemma parent?_of_insert (h : t.insert parent decl = .ok u) (id : Nat) :
    u.parent? id = if id = t.size then parent else t.parent? id := by
  by_cases hid : id = t.entries.size
  · simp [Tree.parent?, (insert_eq_ok_iff.1 h).2.2, size, hid]
  · simp [Tree.parent?, (insert_eq_ok_iff.1 h).2.2, size, hid, Array.getElem?_push]

/-- After an addition the new identifier leads to the new slot, and the others lead where they did.
-/
lemma get?_of_insert (h : t.insert parent decl = .ok u) (usr : Usr) :
    u.get? usr = if decl.usr = usr then some t.size else t.get? usr := by
  have hsize := size_of_insert h
  have hfresh := get?_eq_none_iff.1 (insert_eq_ok_iff.1 h).2.1
  split
  · next husr =>
    refine get?_eq_some_iff.2 ⟨by omega, ?_⟩
    rw [decl_of_insert h, if_pos rfl, husr]
  · next husr =>
    ext id
    rw [get?_eq_some_iff, get?_eq_some_iff, decl_of_insert h, hsize]
    by_cases hid : id = t.size
    · simp [hid, husr]
    · simp only [hid, if_false]
      exact and_congr_left' ⟨by omega, by omega⟩

/-- The new declaration is the last child of its parent. -/
lemma children_of_insert (h : t.insert parent decl = .ok u) (id : Nat) :
    u.children id = t.children id ++ if parent = some id then [t.size] else [] := by
  have hold : ∀ c ∈ List.range' (id + 1) (t.size - (id + 1)),
      decide (u.parent? c = some id) = decide (t.parent? c = some id) := fun c hc => by
    rw [parent?_of_insert h, if_neg (by have := List.mem_range'_1.1 hc; omega)]
  by_cases hid : id < t.size
  · have hgrown : u.size - (id + 1) = (t.size - (id + 1)) + 1 := by
      rw [size_of_insert h]
      omega
    have hlast : id + 1 + (t.size - (id + 1)) = t.size := by omega
    rw [children, hgrown, List.range'_concat, Nat.one_mul, hlast, List.filter_append,
      List.filter_congr hold, ← children]
    congr 1
    simp [List.filter_cons, parent?_of_insert h]
  · have hparent : parent ≠ some id := by
      intro hp
      exact hid ((admits_iff.1 (insert_eq_ok_iff.1 h).1).1 id hp)
    have hsize := size_of_insert h
    simp [children, hparent, show u.size - (id + 1) = 0 by omega,
      show t.size - (id + 1) = 0 by omega]

/-- A declaration without a parent is the new last translation unit. -/
lemma translationUnits_of_insert (h : t.insert parent decl = .ok u) :
    u.translationUnits = t.translationUnits ++ if parent = none then [t.size] else [] := by
  have hold : ∀ c ∈ List.range t.size,
      decide (u.parent? c = none) = decide (t.parent? c = none) := fun c hc => by
    rw [parent?_of_insert h, if_neg (by have := List.mem_range.1 hc; omega)]
  rw [translationUnits, ids, size_of_insert h, List.range_succ, List.filter_append,
    List.filter_congr hold, ← ids, ← translationUnits]
  congr 1
  simp [List.filter_cons, parent?_of_insert h]

/-- The new declaration stands last among those of its header name. -/
lemma declaredAs_of_insert (h : t.insert parent decl = .ok u) (name : String) :
    u.declaredAs name =
      t.declaredAs name ++ if decl.headerName = name then [t.size] else [] := by
  have hold : ∀ c ∈ List.range t.size,
      decide ((u.decl c).headerName = name) = decide ((t.decl c).headerName = name) :=
    fun c hc => by rw [decl_of_insert h, if_neg (by have := List.mem_range.1 hc; omega)]
  rw [declaredAs, ids, size_of_insert h, List.range_succ, List.filter_append,
    List.filter_congr hold, ← ids, ← declaredAs]
  congr 1
  simp [List.filter_cons, decl_of_insert h]

end Inserted

end Bindery.Tree
