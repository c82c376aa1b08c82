import Mathlib.Data.List.Sort
import Bindery.Selection
import Bindery.Proofs.Tree.Editing

/-!
# What is selected stays selected

Selectors go by names in the header and pick nothing inside a class but properties, so the methods
that a tree may gain are never picked: a selector picks the same after any development
(`selectAll_of_develops`).  What has been suppressed stays so.  Hence suppressing again has
nothing to do, whatever has happened in between (`suppress_idle_of_develops`).
-/

namespace Bindery.Tree

variable {free : List Field} {t u : Tree} {id : Nat} {selector : Selector}
  {selectors : List Selector} {ids : List Nat}

/-! ## Selecting after a development -/

/-- Declarations looked up by name and tested are the same, if no method passes the test. -/
lemma filter_declaredAs_of_develops (hdev : t.Develops free u) (name : String)
    {p q : Nat → Bool} (hold : ∀ id < t.size, q id = p id)
    (hnew : ∀ id, (u.decl id).kind = .method → q id = false) :
    (u.declaredAs name).filter q = (t.declaredAs name).filter p := by
  refine List.Pairwise.eq_of_mem_iff (r := (· < ·)) ((pairwise_lt_declaredAs u name).filter _)
    ((pairwise_lt_declaredAs t name).filter _) fun id => ?_
  rw [List.mem_filter, List.mem_filter, mem_declaredAs_iff, mem_declaredAs_iff]
  constructor
  · rintro ⟨⟨hid, hname⟩, hq⟩
    have hlt : id < t.size := by
      refine hdev.lt_size_of_kind_ne hid fun hkind => ?_
      rw [hnew id hkind] at hq
      exact absurd hq (by simp)
    rw [hdev.reads Decl.headerName Decl.headerName_shape hlt] at hname
    exact ⟨⟨hlt, hname⟩, hold id hlt ▸ hq⟩
  · rintro ⟨⟨hid, hname⟩, hp⟩
    refine ⟨⟨Nat.lt_of_lt_of_le hid hdev.size_le, ?_⟩, (hold id hid).trans hp⟩
    rw [hdev.reads Decl.headerName Decl.headerName_shape hid, hname]

/-- Only methods are added, so the children of any other kind are the same. -/
lemma childrenOfKind_of_develops (hdev : t.Develops free u) {kind : Kind} (hkind : kind ≠ .method)
    (id : Nat) : u.childrenOfKind id kind = t.childrenOfKind id kind := by
  refine List.Pairwise.eq_of_mem_iff (r := (· < ·)) ((pairwise_lt_children u id).filter _)
    ((pairwise_lt_children t id).filter _) fun c => ?_
  rw [mem_childrenOfKind_iff, mem_childrenOfKind_iff]
  constructor
  · rintro ⟨hparent, hc⟩
    have hlt := hdev.lt_size_of_kind_ne (lt_size_of_parent? hparent) (hc ▸ hkind)
    exact ⟨(hdev.parent?_eq hlt).symm.trans hparent, (hdev.kind_eq hlt).symm.trans hc⟩
  · rintro ⟨hparent, hc⟩
    have hlt := lt_size_of_parent? hparent
    exact ⟨(hdev.parent?_eq hlt).trans hparent, (hdev.kind_eq hlt).trans hc⟩

/-- A method lies in a class, so no global selector picks it. -/
lemma inNamespaceScope_of_method (h : (t.decl id).kind = .method) :
    t.inNamespaceScope id = false := by
  obtain ⟨p, hp, hclass⟩ := exists_class_of_method h
  rw [inNamespaceScope, hp, Option.any_some, hclass]
  rfl

/-- The class is found again; the messages of a failed search may name other candidates. -/
lemma classNamed_of_develops (hdev : t.Develops free u) (name : String) :
    (u.classNamed name).value = (t.classNamed name).value := by
  have hfound := filter_declaredAs_of_develops hdev name
    (p := fun id => (t.decl id).isCompleteClass) (q := fun id => (u.decl id).isCompleteClass)
    (fun id hid => hdev.reads Decl.isCompleteClass Decl.isCompleteClass_shape hid)
    (fun id hkind => by
      revert hkind
      unfold Decl.kind Decl.isCompleteClass
      cases (u.decl id).payload <;> simp [Payload.kind])
  unfold classNamed
  rw [hfound]
  cases (t.declaredAs name).filter fun id => (t.decl id).isCompleteClass with
  | nil =>
    cases u.similarClasses name <;> cases t.similarClasses name <;>
      simp only [Logged.value_bind, Logged.value_pure]
  | cons id ids => cases ids <;> simp only [Logged.value_bind, Logged.value_pure]

/-- A selector goes by names in the header, and picks what it picked before. -/
lemma select_of_develops (hdev : t.Develops free u) (selector : Selector) :
    (u.select selector).value = (t.select selector).value := by
  cases selector with
  | global name =>
    have hfound := filter_declaredAs_of_develops hdev name (p := t.inNamespaceScope)
      (q := u.inNamespaceScope) (fun id hid => hdev.inNamespaceScope_eq hid)
      (fun id hkind => inNamespaceScope_of_method hkind)
    simp only [select, hfound]
  | property className propertyName =>
    simp only [select, Logged.value_bind, classNamed_of_develops hdev]
    cases hclass : (t.classNamed className).value with
    | error cause => rfl
    | ok id =>
      have hsame : ((u.childrenOfKind id .property).find? fun c =>
          (u.decl c).headerName = propertyName) =
          (t.childrenOfKind id .property).find? fun c => (t.decl c).headerName = propertyName := by
        rw [childrenOfKind_of_develops hdev (by decide), ← List.head?_filter, ← List.head?_filter]
        congr 1
        refine List.filter_congr fun c hc => ?_
        have hlt := lt_size_of_parent? (mem_childrenOfKind_iff.1 hc).1
        rw [hdev.reads Decl.headerName Decl.headerName_shape hlt]
      simp only [hsame]

theorem selectAll_of_develops (hdev : t.Develops free u) (selectors : List Selector) :
    (u.selectAll selectors).value = (t.selectAll selectors).value := by
  induction selectors with
  | nil => rfl
  | cons selector selectors ih =>
    simp only [selectAll, Logged.value_bind, select_of_develops hdev]
    cases (t.select selector).value with
    | error e => rfl
    | ok ids =>
      simp only [Logged.value_bind, ih]

/-! ## What is selected is in the tree -/

lemma lt_size_of_mem_select {selector : Selector} {ids : List Nat}
    (h : (t.select selector).value = .ok ids) : ∀ id ∈ ids, id < t.size := by
  cases selector with
  | global name =>
    intro id hid
    have hids : (t.declaredAs name).filter t.inNamespaceScope = ids := by
      cases hfound : (t.declaredAs name).filter t.inNamespaceScope with
      | nil => simp [select, hfound] at h
      | cons first rest => simpa [select, hfound] using h
    rw [← hids] at hid
    exact (mem_declaredAs_iff.1 (List.mem_filter.1 hid).1).1
  | property className propertyName =>
    intro c hc
    rw [select, Logged.value_bind] at h
    cases hclass : (t.classNamed className).value with
    | error cause => simp [hclass] at h
    | ok id =>
      rw [hclass] at h
      cases hfound : (t.childrenOfKind id .property).find? fun c =>
          (t.decl c).headerName = propertyName with
      | none => simp [hfound] at h
      | some c' =>
        obtain rfl : [c'] = ids := by simpa [hfound] using h
        rw [List.mem_singleton.1 hc]
        exact lt_size_of_parent? (mem_childrenOfKind_iff.1 (List.mem_of_find?_eq_some hfound)).1

/-- A list of selectors fails with the first that does. -/
lemma selectAll_cons_of_ok (h : (t.select selector).value = .ok ids) :
    (t.selectAll (selector :: selectors)).value =
      (t.selectAll selectors).value.map (ids ++ ·) := by
  rw [selectAll, Logged.value_bind, h]
  cases hmore : (t.selectAll selectors).value <;> simp [hmore, Except.map]

/-- Selecting with several selectors is selecting with each of them. -/
lemma exists_of_selectAll_cons (h : (t.selectAll (selector :: selectors)).value = .ok ids) :
    ∃ first more, (t.select selector).value = .ok first ∧
      (t.selectAll selectors).value = .ok more ∧ first ++ more = ids := by
  cases hfirst : (t.select selector).value with
  | error e =>
    rw [selectAll, Logged.value_bind, hfirst] at h
    exact absurd h (by simp)
  | ok first =>
    rw [selectAll_cons_of_ok hfirst] at h
    cases hmore : (t.selectAll selectors).value with
    | error e => exact absurd (hmore ▸ h) (by simp [Except.map])
    | ok more =>
      rw [hmore] at h
      exact ⟨first, more, rfl, rfl, Except.ok.inj h⟩

lemma lt_size_of_mem_selectAll (h : (t.selectAll selectors).value = .ok ids) :
    ∀ id ∈ ids, id < t.size := by
  induction selectors generalizing ids with
  | nil =>
    obtain rfl : [] = ids := Except.ok.inj h
    simp
  | cons selector selectors ih =>
    obtain ⟨first, more, hfirst, hmore, rfl⟩ := exists_of_selectAll_cons h
    intro id hid
    rcases List.mem_append.1 hid with hid | hid
    · exact lt_size_of_mem_select hfirst id hid
    · exact ih hmore id hid

/-! ## Suppressing -/

/-- Hiding what is hidden changes nothing, so it makes no difference whether it is done. -/
lemma tree_ignoreOne (t : Tree) (id : Nat) : (t.ignoreOne id).tree = t.edit id .ignore := by
  unfold ignoreOne
  split
  · next hignored =>
    have hself : Edit.apply .ignore (t.decl id) = t.decl id := by rw [Edit.apply, ← hignored]
    exact (edit_eq_self hself).symm
  · rfl

lemma develops_ignoreOne (t : Tree) (id : Nat) : t.Develops [.ignored] (t.ignoreOne id).tree := by
  rw [tree_ignoreOne]
  exact develops_ignore t id

lemma size_ignoreOne (t : Tree) (id : Nat) : (t.ignoreOne id).tree.size = t.size := by
  rw [tree_ignoreOne, size_edit]

lemma develops_ignoreAll (t : Tree) (ids : List Nat) :
    t.Develops [.ignored] (t.ignoreAll ids).tree := Progress.sweep_develops develops_ignoreOne ids t

lemma size_ignoreAll (t : Tree) (ids : List Nat) : (t.ignoreAll ids).tree.size = t.size :=
  Progress.size_sweep size_ignoreOne ids t

lemma editedAt_ignoreAll (h : ∀ id ∈ ids, id < t.size) :
    t.EditedAt .ignore {id | id ∈ ids} (t.ignoreAll ids).tree :=
  Progress.editedAt_sweep tree_ignoreOne h

lemma ignored_ignoreAll (h : ∀ id ∈ ids, id < t.size) :
    ∀ id ∈ ids, ((t.ignoreAll ids).tree.decl id).ignored = true := by
  intro id hid
  rw [(editedAt_ignoreAll h).decl_of_mem id hid]
  rfl

/-- Where everything is hidden already nothing is counted. -/
lemma ignoreAll_idle {ids : List Nat} (h : ∀ id ∈ ids, (t.decl id).ignored = true) :
    (t.ignoreAll ids).Idle t := by
  refine Progress.sweep_idle fun id hid => ?_
  rw [ignoreOne, if_pos (h id hid)]
  exact Progress.idle_unchanged t

lemma develops_suppress (t : Tree) (selectors : List Selector) :
    t.Develops [.ignored] (t.suppress selectors).tree := by
  unfold suppress ignoreSelected
  split
  · exact .refl _ t
  · exact develops_ignoreAll t _

lemma size_suppress (t : Tree) (selectors : List Selector) :
    (t.suppress selectors).tree.size = t.size := by
  unfold suppress ignoreSelected
  split
  · rfl
  · exact size_ignoreAll t _

theorem suppress_idle_of_develops {selectors : List Selector} {n : Nat}
    (hok : (t.suppress selectors).result = .ok n)
    (hdev : (t.suppress selectors).tree.Develops free u) : (u.suppress selectors).Idle u := by
  cases hselected : (t.selectAll selectors).value with
  | error e => simp [suppress, ignoreSelected, hselected] at hok
  | ok ids =>
    have htree : (t.suppress selectors).tree = (t.ignoreAll ids).tree := by
      simp [suppress, ignoreSelected, hselected]
    rw [htree] at hdev
    have hlt := lt_size_of_mem_selectAll hselected
    have hagain : (u.selectAll selectors).value = .ok ids := by
      rw [selectAll_of_develops ((develops_ignoreAll t ids).mono (List.subset_append_left _ free)
        |>.trans (hdev.mono (List.subset_append_right _ free))), hselected]
    have hidle : (u.ignoreAll ids).Idle u := by
      refine ignoreAll_idle fun id hid => hdev.ignored_of ?_ (ignored_ignoreAll hlt id hid)
      rw [size_ignoreAll]
      exact hlt id hid
    simp only [suppress, ignoreSelected, hagain, Outcome.Idle]
    exact ⟨hidle.1, congrArg Except.ok hidle.2⟩

end Bindery.Tree
