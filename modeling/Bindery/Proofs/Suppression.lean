import Bindery.Proofs.Failure
import Bindery.Proofs.Pass.Counts

/-!
# What is suppressed

`Picks` says of a declaration whether a selector picks it, and `Misses` with which error a selector
picks nothing; looking a selector up comes to one of the two (`select_cases`).  If all selectors pick
something, suppressing hides exactly what any of them picks.  Otherwise it fails as the first selector
does that picks nothing, and leaves the tree alone (`suppress_exact`).

The order of the selectors and their repetitions do not matter, since hiding is one edit for a set of
declarations (`EditedAt`).  Nor does it matter whether they are looked up all at once or one after
another: what has been hidden is picked all the same (`suppressOneByOne_of_selectAll`).
-/

namespace Bindery.Tree

variable {t : Tree} {selector : Selector} {selectors : List Selector} {ids : List Nat} {id : Nat}
  {e : PassError}

/-! ## What a selector picks -/

/-- A class that has a definition, and the name in its header. -/
def IsClassNamed (t : Tree) (name : String) (id : Nat) : Prop :=
  id < t.size ∧ (t.decl id).headerName = name ∧ (t.decl id).isCompleteClass = true

/-- A property of a class, with its name in the header. -/
def IsPropertyNamed (t : Tree) (scope : Nat) (name : String) (id : Nat) : Prop :=
  t.parent? id = some scope ∧ (t.decl id).kind = .property ∧ (t.decl id).headerName = name

/-- A selector picks all declarations of its name that lie directly in a translation unit or
namespace; or, of the only class of its name that has a definition, the first property of its name. -/
def Picks (t : Tree) : Selector → Nat → Prop
  | .global name, id => id < t.size ∧ (t.decl id).headerName = name ∧
      ∃ p, t.parent? id = some p ∧ (t.decl p).kind.isNamespaceScope = true
  | .property className propertyName, id => ∃ c, (∀ k, t.IsClassNamed className k ↔ k = c) ∧
      t.IsPropertyNamed c propertyName id ∧ ∀ i < id, ¬ t.IsPropertyNamed c propertyName i

/-- A selector picks nothing, for the reason that the error gives. -/
inductive Misses (t : Tree) : Selector → PassError → Prop where
  | declaration {name : String} (hnone : ∀ id, ¬ t.Picks (.global name) id) :
      t.Misses (.global name) (.declarationNotFound name)
  | noClass {className propertyName : String} (hnone : ∀ k, ¬ t.IsClassNamed className k) :
      t.Misses (.property className propertyName)
        (.classNotFound className (.classNotFound className))
  | manyClasses {className propertyName : String} {k k' : Nat} (hne : k ≠ k')
      (hk : t.IsClassNamed className k) (hk' : t.IsClassNamed className k') :
      t.Misses (.property className propertyName)
        (.classNotFound className (.multipleMatches className))
  | property {className propertyName : String} {c : Nat}
      (hclass : ∀ k, t.IsClassNamed className k ↔ k = c)
      (hnone : ∀ id, ¬ t.IsPropertyNamed c propertyName id) :
      t.Misses (.property className propertyName) (.propertyNotFound className propertyName)

lemma Misses.not_picks (h : t.Misses selector e) (id : Nat) : ¬ t.Picks selector id := by
  cases h with
  | declaration hnone => exact hnone id
  | noClass hnone =>
    rintro ⟨c, hclass, -⟩
    exact hnone c ((hclass c).2 rfl)
  | manyClasses hne hk hk' =>
    rintro ⟨c, hclass, -⟩
    exact hne (((hclass _).1 hk).trans ((hclass _).1 hk').symm)
  | property hclass hnone =>
    rintro ⟨c, hclass', hproperty, -⟩
    obtain rfl := (hclass c).1 ((hclass' c).2 rfl)
    exact hnone id hproperty

/-- A class is found if it is the only one of its name. -/
lemma classNamed_cases (t : Tree) (name : String) :
    (∃ c, (t.classNamed name).value = .ok c ∧ ∀ k, t.IsClassNamed name k ↔ k = c) ∨
      ((t.classNamed name).value = .error (.classNotFound name) ∧ ∀ k, ¬ t.IsClassNamed name k) ∨
      ((t.classNamed name).value = .error (.multipleMatches name) ∧
        ∃ k k', k ≠ k' ∧ t.IsClassNamed name k ∧ t.IsClassNamed name k') := by
  have hmem : ∀ k, k ∈ (t.declaredAs name).filter (fun id => (t.decl id).isCompleteClass) ↔
      t.IsClassNamed name k := by
    intro k
    rw [List.mem_filter, mem_declaredAs_iff, IsClassNamed, and_assoc]
  have hsorted := (t.pairwise_lt_declaredAs name).filter fun id => (t.decl id).isCompleteClass
  unfold classNamed
  cases hfound : (t.declaredAs name).filter fun id => (t.decl id).isCompleteClass with
  | nil =>
    refine .inr (.inl ⟨?_, fun k hk => ?_⟩)
    · cases t.similarClasses name <;> simp
    · rw [← hmem, hfound] at hk
      exact List.not_mem_nil hk
  | cons k rest =>
    rw [hfound] at hmem hsorted
    cases rest with
    | nil => exact .inl ⟨k, rfl, fun k' => by rw [← hmem, List.mem_singleton]⟩
    | cons k' rest =>
      have hlt : k < k' := (List.pairwise_cons.1 hsorted).1 k' List.mem_cons_self
      exact .inr (.inr ⟨rfl, k, k', Nat.ne_of_lt hlt, (hmem k).1 List.mem_cons_self,
        (hmem k').1 (List.mem_cons_of_mem _ List.mem_cons_self)⟩)

/-- In an ascending list a search finds the least. -/
lemma find?_eq_some_iff_of_pairwise (h : ids.Pairwise (· < ·)) {p : Nat → Bool} :
    ids.find? p = some id ↔ (id ∈ ids ∧ p id = true) ∧ ∀ i < id, ¬ (i ∈ ids ∧ p i = true) := by
  rw [List.find?_eq_some_iff_append]
  constructor
  · rintro ⟨hid, front, rest, rfl, hfront⟩
    refine ⟨⟨by simp, hid⟩, fun i hlt ⟨hmem, hi⟩ => ?_⟩
    rcases List.mem_append.1 hmem with hmem | hmem
    · simpa [hi] using hfront i hmem
    · have hle : ∀ j ∈ id :: rest, id ≤ j := List.forall_mem_cons.2 ⟨Nat.le_refl id, fun j hj =>
        Nat.le_of_lt ((List.pairwise_cons.1 (List.pairwise_append.1 h).2.1).1 j hj)⟩
      exact absurd hlt (Nat.not_lt_of_le (hle i hmem))
  · rintro ⟨⟨hmem, hid⟩, hfirst⟩
    obtain ⟨front, rest, rfl⟩ := List.append_of_mem hmem
    refine ⟨hid, front, rest, rfl, fun i hi => ?_⟩
    have hlt : i < id := (List.pairwise_append.1 h).2.2 i hi id List.mem_cons_self
    have hnot : ¬ p i = true := fun hpi => hfirst i hlt ⟨List.mem_append_left _ hi, hpi⟩
    simpa using hnot

/-- Among the properties of a class the search finds the first of a name. -/
lemma find?_property_eq_some_iff {scope : Nat} {name : String} :
    (t.childrenOfKind scope .property).find? (fun c => (t.decl c).headerName = name) = some id ↔
      t.IsPropertyNamed scope name id ∧ ∀ i < id, ¬ t.IsPropertyNamed scope name i := by
  have hsorted : (t.childrenOfKind scope .property).Pairwise (· < ·) :=
    (t.pairwise_lt_children scope).filter _
  rw [find?_eq_some_iff_of_pairwise hsorted]
  simp only [mem_childrenOfKind_iff, decide_eq_true_eq, and_assoc,
    IsPropertyNamed]

lemma find?_property_eq_none_iff {scope : Nat} {name : String} :
    (t.childrenOfKind scope .property).find? (fun c => (t.decl c).headerName = name) = none ↔
      ∀ id, ¬ t.IsPropertyNamed scope name id := by
  simp only [List.find?_eq_none, mem_childrenOfKind_iff, decide_eq_true_eq, IsPropertyNamed, and_imp,
    not_and]

/-- A selector is looked up to what it picks, or it picks nothing and the error says why. -/
theorem select_cases (t : Tree) (selector : Selector) :
    (∃ ids, (t.select selector).value = .ok ids ∧ ids ≠ [] ∧ ∀ id, id ∈ ids ↔ t.Picks selector id) ∨
      ∃ e, (t.select selector).value = .error e ∧ t.Misses selector e := by
  cases selector with
  | global name =>
    have hmem : ∀ id, id ∈ (t.declaredAs name).filter t.inNamespaceScope ↔
        t.Picks (.global name) id := by
      intro id
      rw [List.mem_filter, mem_declaredAs_iff, inNamespaceScope, Option.any_eq_true, Picks, and_assoc]
    cases hfound : (t.declaredAs name).filter t.inNamespaceScope with
    | nil =>
      refine .inr ⟨.declarationNotFound name, by simp [select, hfound], .declaration fun id hid => ?_⟩
      rw [← hmem, hfound] at hid
      exact List.not_mem_nil hid
    | cons first rest =>
      exact .inl ⟨first :: rest, by simp [select, hfound], List.cons_ne_nil _ _, hfound ▸ hmem⟩
  | property className propertyName =>
    rw [select, Logged.value_bind]
    rcases t.classNamed_cases className with
      ⟨c, hvalue, hclass⟩ | ⟨hvalue, hnone⟩ | ⟨hvalue, k, k', hne, hk, hk'⟩
    · rw [hvalue]
      cases hfound : (t.childrenOfKind c .property).find? fun c =>
          (t.decl c).headerName = propertyName with
      | none =>
        exact .inr ⟨_, by simp [hfound], .property hclass (find?_property_eq_none_iff.1 hfound)⟩
      | some first =>
        refine .inl ⟨[first], by simp [hfound], List.cons_ne_nil _ _, fun id => ?_⟩
        rw [List.mem_singleton]
        constructor
        · rintro rfl
          exact ⟨c, hclass, find?_property_eq_some_iff.1 hfound⟩
        · rintro ⟨c', hclass', hid⟩
          obtain rfl := (hclass c').1 ((hclass' c').2 rfl)
          exact Option.some.inj ((find?_property_eq_some_iff.2 hid).symm.trans hfound)
    · rw [hvalue]
      exact .inr ⟨_, rfl, .noClass hnone⟩
    · rw [hvalue]
      exact .inr ⟨_, rfl, .manyClasses hne hk hk'⟩

lemma mem_select_iff (h : (t.select selector).value = .ok ids) :
    id ∈ ids ↔ t.Picks selector id := by
  rcases t.select_cases selector with ⟨ids', hvalue, -, hmem⟩ | ⟨e, hvalue, -⟩
  · obtain rfl := Except.ok.inj (hvalue.symm.trans h)
    exact hmem id
  · rw [hvalue] at h
    exact absurd h (by simp)

lemma resolves_iff_exists_picks : t.Resolves selector ↔ ∃ id, t.Picks selector id := by
  rw [← select_eq_ok_iff]
  rcases t.select_cases selector with ⟨ids, hvalue, hne, hmem⟩ | ⟨e, hvalue, hmisses⟩
  · obtain ⟨id, hid⟩ := List.exists_mem_of_ne_nil ids hne
    exact iff_of_true ⟨ids, hvalue⟩ ⟨id, (hmem id).1 hid⟩
  · refine iff_of_false ?_ fun ⟨id, hid⟩ => hmisses.not_picks id hid
    rintro ⟨ids, hok⟩
    rw [hvalue] at hok
    exact absurd hok (by simp)

/-! ## Several selectors -/

lemma exists_selectAll (h : ∀ s ∈ selectors, ∃ id, t.Picks s id) :
    ∃ ids, (t.selectAll selectors).value = .ok ids ∧
      ∀ id, id ∈ ids ↔ ∃ s ∈ selectors, t.Picks s id := by
  induction selectors with
  | nil => exact ⟨[], rfl, by simp⟩
  | cons selector selectors ih =>
    obtain ⟨hfirst, hrest⟩ := List.forall_mem_cons.1 h
    obtain ⟨ids, hvalue⟩ := select_eq_ok_iff.2 (resolves_iff_exists_picks.2 hfirst)
    obtain ⟨more, hmore, hmem⟩ := ih hrest
    refine ⟨ids ++ more, by rw [selectAll_cons_of_ok hvalue, hmore]; rfl, fun id => ?_⟩
    rw [List.mem_append, mem_select_iff hvalue, hmem]
    simp

/-! ## Hiding -/

lemma changes_ignoreOne (hid : id < t.size) :
    (t.ignoreOne id).changes = t.tally newlyIgnored (t.ignoreOne id).tree := by
  rw [tree_ignoreOne, tally_eq_single newlyIgnored_self hid fun i _ hne => decl_edit_of_ne hne _,
    decl_edit, if_pos ⟨rfl, hid⟩, ignoreOne]
  cases hignored : (t.decl id).ignored <;> simp [newlyIgnored, hignored, Edit.apply, Progress.edited,
    Progress.unchanged]

lemma ignoreAll_append (t : Tree) (front ids : List Nat) :
    t.ignoreAll (front ++ ids) = (t.ignoreAll front).andThen (·.ignoreAll ids) :=
  Progress.sweep_append ignoreOne front ids t

/-- What is hidden is counted once, however often it is listed. -/
lemma changes_ignoreAll (h : ∀ id ∈ ids, id < t.size) :
    (t.ignoreAll ids).changes = t.tally newlyIgnored (t.ignoreAll ids).tree := by
  induction ids generalizing t with
  | nil => exact (tally_self newlyIgnored_self t).symm
  | cons id ids ih =>
    obtain ⟨hid, hids⟩ := List.forall_mem_cons.1 h
    have hsize := size_ignoreOne t id
    have hrest : ∀ i ∈ ids, i < (t.ignoreOne id).tree.size := by simpa [hsize] using hids
    have hlast := editedAt_ignoreAll hrest
    have hsplit : t.ignoreAll (id :: ids) = (t.ignoreOne id).andThen (·.ignoreAll ids) := rfl
    rw [hsplit, Progress.changes_andThen, Progress.tree_andThen, changes_ignoreOne hid]
    refine (congrArg _ (ih hrest)).trans (tally_add_of_size_eq newlyIgnored_self hsize ?_).symm
    intro i hi
    by_cases hne : id = i
    · -- listed once more, it is found hidden
      subst hne
      refine .inr ?_
      by_cases hmem : id ∈ {i | i ∈ ids}
      · rw [hlast.decl_of_mem id hmem, tree_ignoreOne, decl_edit, if_pos ⟨rfl, hid⟩, Edit.apply_apply]
      · exact hlast.decl_of_notMem id hmem
    · exact .inl (by rw [tree_ignoreOne, decl_edit_of_ne hne])

lemma suppress_of_selectAll (h : (t.selectAll selectors).value = .ok ids) :
    (t.suppress selectors).tree = (t.ignoreAll ids).tree ∧
      (t.suppress selectors).result = .ok (t.ignoreAll ids).changes := by
  rw [suppress, ignoreSelected, h]
  exact ⟨rfl, rfl⟩

/-! ## One after another -/

/-- Suppresses with one selector after another, up to the first that fails. -/
def suppressOneByOne : List Selector → Tree → Outcome PassError
  | [], t => .unchanged t
  | selector :: selectors, t => (t.suppressOne selector).andThen (suppressOneByOne selectors)

/-- What the first selectors hide makes no difference to what the others pick. -/
theorem suppressOneByOne_of_selectAll (h : (t.selectAll selectors).value = .ok ids) :
    (suppressOneByOne selectors t).tree = (t.ignoreAll ids).tree ∧
      (suppressOneByOne selectors t).result = .ok (t.ignoreAll ids).changes := by
  induction selectors generalizing t ids with
  | nil =>
    obtain rfl : [] = ids := Except.ok.inj h
    exact ⟨rfl, rfl⟩
  | cons selector selectors ih =>
    obtain ⟨first, more, hfirst, hmore, rfl⟩ := exists_of_selectAll_cons h
    have hone : (t.suppressOne selector).tree = (t.ignoreAll first).tree ∧
        (t.suppressOne selector).result = .ok (t.ignoreAll first).changes := by
      rw [suppressOne, ignoreSelected, hfirst]
      exact ⟨rfl, rfl⟩
    have hagain := selectAll_of_develops (develops_ignoreAll t first) selectors
    obtain ⟨htree, hresult⟩ := ih (hagain.trans hmore)
    rw [suppressOneByOne, Outcome.andThen_of_ok hone.2, hone.1, htree, hresult, ignoreAll_append]
    exact ⟨rfl, rfl⟩

/-! ## Suppressing -/

/-- What some selector picks is hidden, nothing else is changed, and what has been hidden is
counted. -/
lemma editedAt_suppress (h : ∀ s ∈ selectors, ∃ id, t.Picks s id) :
    t.EditedAt .ignore {id | ∃ s ∈ selectors, t.Picks s id} (t.suppress selectors).tree ∧
      (t.suppress selectors).result = .ok (t.tally newlyIgnored (t.suppress selectors).tree) := by
  obtain ⟨ids, hvalue, hmem⟩ := exists_selectAll h
  have hids := lt_size_of_mem_selectAll hvalue
  obtain ⟨htree, hresult⟩ := suppress_of_selectAll hvalue
  rw [hresult, htree, changes_ignoreAll hids]
  refine ⟨?_, rfl⟩
  simpa only [hmem] using editedAt_ignoreAll hids

/-- The first selector that picks nothing decides on the error. -/
lemma exists_firstFailing_suppress (h : ¬ ∀ s ∈ selectors, ∃ id, t.Picks s id) :
    ∃ front s e, FirstFailing (fun s => ∃ id, t.Picks s id) selectors front s ∧ t.Misses s e ∧
      (t.suppressOne s).result = .error e ∧ (t.suppress selectors).result = .error e ∧
      (t.suppress selectors).tree = t := by
  obtain ⟨front, s, hfirst⟩ := exists_firstFailing h
  rcases t.select_cases s with ⟨ids, hvalue, hne, hmem⟩ | ⟨e, hvalue, hmisses⟩
  · obtain ⟨id, hid⟩ := List.exists_mem_of_ne_nil ids hne
    exact absurd ⟨id, (hmem id).1 hid⟩ hfirst.2.2
  · have hresolves := hfirst
    simp only [← resolves_iff_exists_picks] at hresolves
    have hresult : (t.suppress selectors).result = .error e :=
      suppress_eq_error_iff.2 ⟨front, s, hresolves, hvalue⟩
    have hone : (t.suppressOne s).result = .error e := by
      rw [suppressOne, ignoreSelected, hvalue]
    exact ⟨front, s, e, hfirst, hmisses, hone, hresult, tree_suppress_of_error hresult⟩

/-- If every selector picks something, what any of them picks is hidden and nothing else changed,
whatever the order and the repetitions of the selectors, and whether all at once or one after another.
Otherwise the first selector that picks nothing decides on the error, and nothing is changed. -/
theorem suppress_exact (t : Tree) (selectors : List Selector) :
    ((∀ s ∈ selectors, ∃ id, t.Picks s id) →
      t.EditedAt .ignore {id | ∃ s ∈ selectors, t.Picks s id} (t.suppress selectors).tree ∧
      (t.suppress selectors).result = .ok (t.tally newlyIgnored (t.suppress selectors).tree) ∧
      (∀ others : List Selector, (∀ s, s ∈ others ↔ s ∈ selectors) →
        (t.suppress others).tree = (t.suppress selectors).tree ∧
          (t.suppress others).result = (t.suppress selectors).result) ∧
      (suppressOneByOne selectors t).tree = (t.suppress selectors).tree ∧
      (suppressOneByOne selectors t).result = (t.suppress selectors).result) ∧
    ((¬ ∀ s ∈ selectors, ∃ id, t.Picks s id) →
      ∃ front s e, FirstFailing (fun s => ∃ id, t.Picks s id) selectors front s ∧ t.Misses s e ∧
        (t.suppressOne s).result = .error e ∧ (t.suppress selectors).result = .error e ∧
        (t.suppress selectors).tree = t) := by
  refine ⟨fun hall => ?_, exists_firstFailing_suppress⟩
  obtain ⟨hedited, hresult⟩ := editedAt_suppress hall
  refine ⟨hedited, hresult, fun others hothers => ?_, ?_⟩
  · obtain ⟨hedited', hresult'⟩ :=
      @editedAt_suppress t others fun s hs => hall s ((hothers s).1 hs)
    simp only [hothers] at hedited'
    have hsame := hedited.unique hedited'
    rw [hresult', hresult, hsame]
    exact ⟨rfl, rfl⟩
  · obtain ⟨ids, hvalue, -⟩ := exists_selectAll hall
    obtain ⟨htree, hchanges⟩ := suppress_of_selectAll hvalue
    rw [htree, hchanges]
    exact suppressOneByOne_of_selectAll hvalue

/-- A class, declared forward first, with two properties and a method; two functions, one of them in
a namespace, have the name of the method. -/
def vectorTree : Tree :=
  Tree.empty.changed [
    .insert none (.new ⟨"tu:a.h"⟩ "a.h" .translationUnit),
    .insert (some 0) (.new ⟨"V"⟩ "Vector" (.classType false [])),
    .insert (some 0) (.new ⟨"V#definition"⟩ "Vector" (.classType true [])),
    .insert (some 2) (.new ⟨"x"⟩ "Data" (.property (.builtin "float") false)),
    .insert (some 2) (.new ⟨"y"⟩ "Size" (.property (.builtin "int") false)),
    .insert (some 2) (.new ⟨"m"⟩ "clear" (.method (.plain ⟨.void, [], false⟩))),
    .insert (some 0) (.new ⟨"f"⟩ "clear" (.function ⟨.void, [], false⟩)),
    .insert (some 0) (.new ⟨"n"⟩ "detail" .namespaceScope),
    .insert (some 7) (.new ⟨"g"⟩ "clear" (.function ⟨.void, [], true⟩))]

/-- The two functions and a property are hidden in whatever order.  Where one selector picks nothing,
none of the others does anything. -/
theorem suppress_exact_vectorTree :
    (vectorTree.suppress [.property "Vector" "Data", .global "clear", .property "Vector" "Data"]).tree =
        (vectorTree.suppress [.global "clear", .property "Vector" "Data"]).tree ∧
      (vectorTree.suppress [.global "clear", .property "Vector" "Count"]).tree = vectorTree := by
  have hglobal : ∃ id, vectorTree.Picks (.global "clear") id :=
    resolves_iff_exists_picks.1 (select_eq_ok_iff.1 ⟨[6, 8], by decide +kernel⟩)
  have hproperty : ∃ id, vectorTree.Picks (.property "Vector" "Data") id :=
    resolves_iff_exists_picks.1 (select_eq_ok_iff.1 ⟨[3], by decide +kernel⟩)
  have hmissing : ¬ ∃ id, vectorTree.Picks (.property "Vector" "Count") id := by
    have herror : (vectorTree.select (.property "Vector" "Count")).value =
        .error (.propertyNotFound "Vector" "Count") := by decide +kernel
    rw [← resolves_iff_exists_picks, ← select_eq_ok_iff, herror]
    simp
  constructor
  · obtain ⟨-, -, hsame, -⟩ :=
      (suppress_exact vectorTree [.global "clear", .property "Vector" "Data"]).1
        (by simpa using ⟨hglobal, hproperty⟩)
    exact (hsame _ (by simp [or_comm])).1
  · obtain ⟨_, _, _, -, -, -, -, htree⟩ :=
      (suppress_exact vectorTree [.global "clear", .property "Vector" "Count"]).2
        fun hall => hmissing (hall _ (by simp))
    exact htree

end Bindery.Tree
