import Bindery.Proofs.Loop
import Bindery.Proofs.Tree.Arena
import Bindery.Proofs.Tree.Preorder

/-!
# Going through a tree by loops

The walk and the lineages of a tree are computed by recursion.  Over an arena, which stores for each
declaration its parent and the list of its children, the same is done by loops: downwards with a
stack of declarations that are still to be listed, upwards with the declaration that is current.

Every loop ends, and has the result of the recursion (`Arena.traverses_changed`).  Downwards, what
is on top of the stack is replaced in the list by its whole subtree before anything below it in the
stack is touched (`Arena.eval_listNext_subtree`).

Upwards, the loop that collects names visits a declaration exactly if the one at the start lies in
it.  The loop that decides whether a declaration is visible stops earlier: it goes up to the first
that is hidden or restricted, this one included, and looks at nothing around it
(`Arena.visits_inspect`, `Arena.not_visits_unit_hiddenClass`).
-/

namespace Bindery

open Loop

/-! ## Downwards -/

/-- A traversal under way: the declarations that are put aside, the next of them last, and those
listed so far. -/
structure Traversal where
  stack : List Nat
  listed : List Nat

namespace Arena

/-- Lists the declaration on top of the stack, and puts its children on the stack, the first of
them on top.  With a declaration that has no slot there is no way on: the loop never ends. -/
def listNext (a : Arena) (s : Traversal) : Option Traversal :=
  match s.stack.getLast? with
  | none => none
  | some id =>
    match a.slots[id]? with
    | none => some s
    | some slot => some ⟨s.stack.dropLast ++ slot.children.reverse, s.listed ++ [id]⟩

/-- Everything below a declaration, listed with the help of a stack. -/
noncomputable def descendants (a : Arena) (id : Nat) : Part (List Nat) :=
  match a.slots[id]? with
  | none => .none
  | some slot => (StateTransition.eval a.listNext ⟨slot.children.reverse, []⟩).map (·.listed)

/-- Lists translation units, each before everything below it. -/
noncomputable def walkUnits (a : Arena) : (units listed : List Nat) → Part (List Nat)
  | [], listed => .some listed
  | unit :: units, listed =>
    (a.descendants unit).bind fun below => a.walkUnits units (listed ++ unit :: below)

/-- Every declaration, by translation unit. -/
noncomputable def walk (a : Arena) : Part (List Nat) := a.walkUnits a.units []

variable {t : Tree} {id c : Nat} {ids stack listed : List Nat}

lemma getElem?_slots_of_lt (h : id < t.size) :
    (ofTree t).slots[id]? = some ⟨t.decl id, t.parent? id, t.children id⟩ := by
  rw [getElem?_slots_ofTree, if_pos h]

/-- What is on top of the stack is listed, and its children go on the stack, the first of them on
top. -/
lemma listNext_concat (h : id < t.size) :
    (ofTree t).listNext ⟨stack ++ [id], listed⟩ =
      some ⟨stack ++ (t.children id).reverse, listed ++ [id]⟩ := by
  simp only [listNext, List.getLast?_concat, List.dropLast_concat, getElem?_slots_of_lt h]

/-- If each declaration on top of the stack is replaced by its subtree in the list, then so are
several of them, the first on top. -/
lemma eval_listNext_of_forall {body : Traversal → Option Traversal}
    (h : ∀ c ∈ ids, ∀ stack listed, StateTransition.eval body ⟨stack ++ [c], listed⟩ =
      StateTransition.eval body ⟨stack, listed ++ t.subtree c⟩) (stack listed : List Nat) :
    StateTransition.eval body ⟨stack ++ ids.reverse, listed⟩ =
      StateTransition.eval body ⟨stack, listed ++ ids.flatMap t.subtree⟩ := by
  induction ids generalizing listed with
  | nil => simp
  | cons c ids ih =>
    obtain ⟨hfirst, hrest⟩ := List.forall_mem_cons.1 h
    rw [List.reverse_cons, ← List.append_assoc, hfirst, ih hrest, List.flatMap_cons,
      List.append_assoc]

/-- The loop lists the whole subtree of what is on top before it comes to what was below. -/
theorem eval_listNext_subtree (h : id < t.size) (stack listed : List Nat) :
    StateTransition.eval (ofTree t).listNext ⟨stack ++ [id], listed⟩ =
      StateTransition.eval (ofTree t).listNext ⟨stack, listed ++ t.subtree id⟩ := by
  induction id using Tree.subtree.induct t generalizing stack listed with
  | case1 id ih =>
    have hchildren : ∀ c ∈ t.children id, c < t.size := fun c hc =>
      Tree.lt_size_of_parent? (Tree.mem_children_iff.1 hc)
    rw [eval_of_some (listNext_concat h),
      eval_listNext_of_forall fun c hc => ih c hc (hchildren c hc), Tree.subtree_eq,
      Tree.descendants, List.append_assoc, List.singleton_append]

lemma descendants_ofTree (h : id < t.size) :
    (ofTree t).descendants id = .some (t.descendants id) := by
  have hchildren : ∀ c ∈ t.children id, c < t.size := fun c hc =>
    Tree.lt_size_of_parent? (Tree.mem_children_iff.1 hc)
  have hrun := eval_listNext_of_forall (fun c hc => eval_listNext_subtree (hchildren c hc)) [] []
  have hend : (ofTree t).listNext ⟨[], (t.children id).flatMap t.subtree⟩ = none := rfl
  rw [List.nil_append, List.nil_append, eval_of_none hend] at hrun
  simp only [descendants, getElem?_slots_of_lt h, hrun, Part.map_some]
  rfl

lemma walkUnits_ofTree (hids : ∀ unit ∈ ids, unit < t.size) :
    (ofTree t).walkUnits ids listed = .some (listed ++ ids.flatMap t.subtree) := by
  induction ids generalizing listed with
  | nil => simp [walkUnits]
  | cons unit ids ih =>
    obtain ⟨hunit, hids⟩ := List.forall_mem_cons.1 hids
    rw [walkUnits, descendants_ofTree hunit, Part.bind_some, ih hids, List.flatMap_cons,
      Tree.subtree_eq, List.append_assoc]

lemma walk_ofTree (t : Tree) : (ofTree t).walk = .some t.walk := by
  have hunits : ∀ unit ∈ t.translationUnits, unit < t.size := fun unit hunit =>
    (Tree.mem_translationUnits_iff.1 hunit).1
  exact (walkUnits_ofTree hunits).trans (by rw [List.nil_append, Tree.walk])

end Arena

/-! ## Upwards -/

namespace Tree

variable {t : Tree} {id p x : Nat}

/-- Everything from `id` up to `x` is exposed, apart from `x` itself. -/
def ExposedUpTo (t : Tree) (id x : Nat) : Prop :=
  ∀ y ∈ t.lineage id, x ∈ t.lineage y → y ≠ x → (t.decl y).isExposed = true

lemma exposedUpTo_self (t : Tree) (id : Nat) : t.ExposedUpTo id id := by
  intro y hy hid hne
  exact absurd (Nat.le_antisymm (le_of_mem_lineage hy) (le_of_mem_lineage hid)) hne

/-- Looking further up means looking at the declaration first. -/
lemma exposedUpTo_iff_of_parent? (hp : t.parent? id = some p) (hx : x ≠ id)
    (hmem : x ∈ t.lineage p) :
    t.ExposedUpTo id x ↔ (t.decl id).isExposed = true ∧ t.ExposedUpTo p x := by
  have hid : x ∈ t.lineage id := mem_lineage_trans hmem (mem_lineage_of_parent? hp)
  rw [ExposedUpTo, lineage_of_parent? hp, List.forall_mem_cons]
  exact and_congr_left' ⟨fun h => h hid (Ne.symm hx), fun h _ _ => h⟩

lemma isVisible_of_parent? (hp : t.parent? id = some p) :
    t.isVisible id = ((t.decl id).isExposed && t.isVisible p) := by
  rw [isVisible, lineage_of_parent? hp, List.all_cons, isVisible]

lemma isVisible_of_parent?_none (hp : t.parent? id = none) :
    t.isVisible id = (t.decl id).isExposed := by
  rw [isVisible, lineage_of_parent?_none hp, List.all_cons, List.all_nil, Bool.and_true]

/-- Where all are exposed nothing ends the loop early. -/
lemma exposedUpTo_of_isVisible (h : t.isVisible id = true) (x : Nat) : t.ExposedUpTo id x :=
  fun y hy _ _ => List.all_eq_true.1 h y hy

end Tree

/-- The names around a declaration being collected: the declaration that comes next, and the names
so far, innermost first. -/
structure NameClimb where
  current : Option Nat
  names : List String

/-- The question whether a declaration is visible, while it is looked into. -/
inductive Inspection where
  /-- Everything further in is exposed, and this declaration comes next. -/
  | lookingAt (current : Option Nat)
  | settled (isVisible : Bool)

namespace Inspection

/-- The declaration that comes next. -/
def current : Inspection → Option Nat
  | .lookingAt current => current
  | .settled _ => none

/-- The answer, once there is one. -/
def answer : Inspection → Part Bool
  | .lookingAt _ => .none
  | .settled isVisible => .some isVisible

end Inspection

namespace Arena

/-- Takes the name of a declaration, unless it is a translation unit, and goes on to its parent. -/
def collectName (a : Arena) (s : NameClimb) : Option NameClimb :=
  match s.current with
  | none => none
  | some id =>
    match a.slots[id]? with
    | none => some s
    | some slot =>
      if slot.decl.kind ≠ .translationUnit then some ⟨slot.parent, s.names ++ [slot.decl.name]⟩
      else some ⟨slot.parent, s.names⟩

/-- The name of a declaration after the names of the namespaces and classes around it. -/
noncomputable def qualifiedName (a : Arena) (id : Nat) : Part String :=
  (StateTransition.eval a.collectName ⟨some id, []⟩).map fun s =>
    String.intercalate "::" s.names.reverse

/-- Looks at a declaration, and goes on to its parent unless it is hidden or restricted. -/
def inspect (a : Arena) : Inspection → Option Inspection
  | .settled _ => none
  | .lookingAt none => some (.settled true)
  | .lookingAt (some id) =>
    match a.slots[id]? with
    | none => some (.lookingAt (some id))
    | some slot =>
      if slot.decl.isExposed = true then some (.lookingAt slot.parent) else some (.settled false)

/-- Whether a declaration is part of the public interface. -/
noncomputable def isVisible (a : Arena) (id : Nat) : Part Bool :=
  (StateTransition.eval a.inspect (.lookingAt (some id))).bind Inspection.answer

variable {t : Tree} {id x : Nat} {names : List String}

lemma collectName_some (h : id < t.size) :
    (ofTree t).collectName ⟨some id, names⟩ = some ⟨t.parent? id,
      names ++ if (t.decl id).kind ≠ .translationUnit then [(t.decl id).name] else []⟩ := by
  simp only [collectName, getElem?_slots_of_lt h]
  split <;> simp

/-- The loop goes up to the end, and collects the names of the lineage. -/
lemma eval_collectName (h : id < t.size) :
    StateTransition.eval (ofTree t).collectName ⟨some id, names⟩ =
      .some ⟨none, names ++ ((t.lineage id).filter fun i =>
        (t.decl i).kind ≠ .translationUnit).map fun i => (t.decl i).name⟩ := by
  induction id using Tree.lineage.induct t generalizing names with
  | case1 id p hp ih =>
    rw [eval_of_some (collectName_some h), hp, ih (Nat.lt_trans (Tree.parent?_lt hp) h),
      Tree.lineage_of_parent? hp, List.filter_cons]
    split <;> simp_all
  | case2 id hp =>
    rw [eval_of_some (collectName_some h), hp, eval_of_none rfl, Tree.lineage_of_parent?_none hp,
      List.filter_cons]
    split <;> simp_all

lemma qualifiedName_ofTree (h : id < t.size) :
    (ofTree t).qualifiedName id = .some (t.qualifiedName id) := by
  rw [qualifiedName, eval_collectName h, Part.map_some, Tree.qualifiedName, List.nil_append,
    List.map_reverse]

/-- It comes past the whole lineage, and past nothing else. -/
lemma visits_collectName (h : id < t.size) :
    Visits (ofTree t).collectName NameClimb.current ⟨some id, names⟩ x ↔ x ∈ t.lineage id := by
  induction id using Tree.lineage.induct t generalizing names with
  | case1 id p hp ih =>
    rw [visits_of_some (collectName_some h), hp, ih (Nat.lt_trans (Tree.parent?_lt hp) h),
      Tree.lineage_of_parent? hp, List.mem_cons, Option.some.injEq, eq_comm]
  | case2 id hp =>
    rw [visits_of_some (collectName_some h), hp, visits_of_none rfl,
      Tree.lineage_of_parent?_none hp, List.mem_singleton]
    simp [eq_comm]

/-- An exposed declaration sends the loop on to the parent. -/
lemma inspect_of_exposed (h : id < t.size) (hexposed : (t.decl id).isExposed = true) :
    (ofTree t).inspect (.lookingAt (some id)) = some (.lookingAt (t.parent? id)) := by
  simp only [inspect, getElem?_slots_of_lt h, if_pos hexposed]

/-- The first declaration that is hidden or restricted settles the matter. -/
lemma inspect_of_not_exposed (h : id < t.size) (hexposed : ¬ (t.decl id).isExposed = true) :
    (ofTree t).inspect (.lookingAt (some id)) = some (.settled false) := by
  simp only [inspect, getElem?_slots_of_lt h, if_neg hexposed]

lemma inspect_none (a : Arena) : a.inspect (.lookingAt none) = some (.settled true) := rfl

/-- Whether it ends early or not, the loop has the right answer. -/
lemma eval_inspect (h : id < t.size) :
    StateTransition.eval (ofTree t).inspect (.lookingAt (some id)) =
      .some (.settled (t.isVisible id)) := by
  induction id using Tree.lineage.induct t with
  | case1 id p hp ih =>
    rw [Tree.isVisible_of_parent? hp]
    by_cases hexposed : (t.decl id).isExposed = true
    · rw [eval_of_some (inspect_of_exposed h hexposed), hp,
        ih (Nat.lt_trans (Tree.parent?_lt hp) h), hexposed, Bool.true_and]
    · rw [eval_of_some (inspect_of_not_exposed h hexposed), eval_of_none rfl,
        Bool.eq_false_of_not_eq_true hexposed, Bool.false_and]
  | case2 id hp =>
    rw [Tree.isVisible_of_parent?_none hp]
    by_cases hexposed : (t.decl id).isExposed = true
    · rw [eval_of_some (inspect_of_exposed h hexposed), hp, eval_of_some (inspect_none _),
        eval_of_none rfl, hexposed]
    · rw [eval_of_some (inspect_of_not_exposed h hexposed), eval_of_none rfl,
        Bool.eq_false_of_not_eq_true hexposed]

lemma isVisible_ofTree (h : id < t.size) :
    (ofTree t).isVisible id = .some (t.isVisible id) := by
  rw [isVisible, eval_inspect h, Part.bind_some, Inspection.answer]

lemma visits_inspect_self (id : Nat) :
    Visits (ofTree t).inspect Inspection.current (.lookingAt (some id)) id ↔
      id ∈ t.lineage id ∧ t.ExposedUpTo id id :=
  iff_of_true ⟨_, .refl, rfl⟩ ⟨Tree.mem_lineage_self t id, Tree.exposedUpTo_self t id⟩

/-- From a declaration one gets to any other one around it if it is exposed, and so is everything
on the way from its parent. -/
lemma visits_inspect_of_ne (h : id < t.size) (hx : x ≠ id) :
    Visits (ofTree t).inspect Inspection.current (.lookingAt (some id)) x ↔
      (t.decl id).isExposed = true ∧ ∃ p, t.parent? id = some p ∧
        Visits (ofTree t).inspect Inspection.current (.lookingAt (some p)) x := by
  have hcurrent : Inspection.current (.lookingAt (some id)) ≠ some x := fun hsame =>
    hx (Option.some.inj hsame).symm
  by_cases hexposed : (t.decl id).isExposed = true
  · rw [visits_of_some (inspect_of_exposed h hexposed), or_iff_right hcurrent]
    cases t.parent? id with
    | some p => simp [hexposed]
    | none =>
      rw [visits_of_some (inspect_none _), visits_of_none rfl]
      simp [Inspection.current]
  · rw [visits_of_some (inspect_of_not_exposed h hexposed), or_iff_right hcurrent,
      visits_of_none rfl]
    simp [Inspection.current, hexposed]

/-- The question is settled by the first declaration, from the inside, that is not exposed; so one
is looked at if everything further in is exposed. -/
theorem visits_inspect (h : id < t.size) :
    Visits (ofTree t).inspect Inspection.current (.lookingAt (some id)) x ↔
      x ∈ t.lineage id ∧ t.ExposedUpTo id x := by
  induction id using Tree.lineage.induct t with
  | case1 id p hp ih =>
    by_cases hx : x = id
    · rw [hx]
      exact visits_inspect_self id
    · rw [visits_inspect_of_ne h hx, hp, Tree.lineage_of_parent? hp, List.mem_cons, or_iff_right hx]
      simp only [Option.some.injEq, exists_eq_left', ih (Nat.lt_trans (Tree.parent?_lt hp) h)]
      rw [and_left_comm]
      refine and_congr_right fun hmem => ?_
      rw [Tree.exposedUpTo_iff_of_parent? hp hx hmem]
  | case2 id hp =>
    by_cases hx : x = id
    · rw [hx]
      exact visits_inspect_self id
    · rw [visits_inspect_of_ne h hx, hp, Tree.lineage_of_parent?_none hp, List.mem_singleton]
      simp [hx]

end Arena

/-! ## Every arena -/

namespace Arena

/-- The loops over the arena end, and do what the recursions over the tree do.  The loop for names
goes all the way up.  The one for visibility goes up to the first declaration that is not exposed,
this one included, so it goes all the way up from what is visible. -/
structure Traverses (a : Arena) (t : Tree) : Prop where
  descendants_eq : ∀ id < t.size, a.descendants id = .some (t.descendants id)
  walk_eq : a.walk = .some t.walk
  qualifiedName_eq : ∀ id < t.size, a.qualifiedName id = .some (t.qualifiedName id)
  isVisible_eq : ∀ id < t.size, a.isVisible id = .some (t.isVisible id)
  visits_collectName : ∀ id < t.size, ∀ x,
    Visits a.collectName NameClimb.current ⟨some id, []⟩ x ↔ x = id ∨ id ∈ t.descendants x
  visits_inspect : ∀ id < t.size, ∀ x,
    Visits a.inspect Inspection.current (.lookingAt (some id)) x ↔
      (x = id ∨ id ∈ t.descendants x) ∧ t.ExposedUpTo id x
  visits_inspect_of_isVisible : ∀ id < t.size, t.isVisible id = true → ∀ x,
    Visits a.inspect Inspection.current (.lookingAt (some id)) x ↔ x = id ∨ id ∈ t.descendants x

lemma traverses_ofTree (t : Tree) : (ofTree t).Traverses t where
  descendants_eq _ h := descendants_ofTree h
  walk_eq := walk_ofTree t
  qualifiedName_eq _ h := qualifiedName_ofTree h
  isVisible_eq _ h := isVisible_ofTree h
  visits_collectName _ h _ := (visits_collectName h).trans Tree.mem_lineage_iff
  visits_inspect _ h _ := (visits_inspect h).trans (and_congr_left' Tree.mem_lineage_iff)
  visits_inspect_of_isVisible id h hvisible x := by
    rw [visits_inspect h, and_iff_left (Tree.exposedUpTo_of_isVisible hvisible x),
      Tree.mem_lineage_iff]

/-- Whatever an arena has gone through, its loops end.  Downwards they go through the tree in
preorder; upwards through what lies around a declaration, for visibility as far as the first that
is not exposed. -/
theorem traverses_changed (changes : List Change) :
    (empty.changed changes).Traverses (Tree.empty.changed changes) ∧
      (Tree.empty.changed changes).WalkedInPreorder := by
  rw [← ofTree_empty, changed_ofTree]
  exact ⟨traverses_ofTree _, Tree.walkedInPreorder _⟩

/-- A class that is kept out, in a translation unit that everyone can see. -/
def hiddenClass : List Change :=
  [.insert none (.new ⟨"tu:a.h"⟩ "a.h" .translationUnit),
    .insert (some 0) (.new ⟨"Widget"⟩ "Widget" (.classType true [])),
    .edit 1 .ignore]

/-- The class lies in the unit, but whether it is visible is settled before the unit is looked
at. -/
theorem not_visits_unit_hiddenClass :
    1 ∈ (Tree.empty.changed hiddenClass).descendants 0 ∧
      ((Tree.empty.changed hiddenClass).decl 0).isExposed = true ∧
      (empty.changed hiddenClass).isVisible 1 = .some false ∧
      ¬ Visits (empty.changed hiddenClass).inspect Inspection.current (.lookingAt (some 1)) 0 := by
  have hsize : 1 < (Tree.empty.changed hiddenClass).size := by decide +kernel
  have hhidden : ((Tree.empty.changed hiddenClass).decl 1).isExposed = false := by decide +kernel
  have hinside : 0 ∈ (Tree.empty.changed hiddenClass).lineage 1 := by decide +kernel
  rw [← ofTree_empty, changed_ofTree, isVisible_ofTree hsize, visits_inspect hsize]
  refine ⟨(Tree.mem_lineage_iff.1 hinside).resolve_left (by decide), by decide +kernel, ?_, ?_⟩
  · rw [Tree.isVisible_of_parent? (p := 0) (by decide +kernel), hhidden, Bool.false_and]
  · rintro ⟨-, hexposed⟩
    rw [hexposed 1 (Tree.mem_lineage_self _ 1) hinside (by decide)] at hhidden
    exact absurd hhidden (by decide)

end Arena

end Bindery
