import Bindery.Proofs.Loop
import Bindery.Proofs.Pass.SimultaneousDefaults

/-!
# The search of base classes by a loop

The base classes of a class are searched with a stack of identifiers.  An identifier is marked when
it is taken from the stack, whatever it names; if it names a class, the methods that are overridden
there are taken down, and the base list of the class goes onto the stack as it is, with repetitions,
with identifiers that have been met before and with some that name no class.

The loop ends on every hierarchy, and finds what the recursion finds (`eval_searchNext`): while it
is running, the classes that are unseen are those whose identifiers are unmarked (`Marks`).  The
order is that of `Explores`, the recursive search that goes through a base list from left to right
and below each new class before it goes on (`explores_ancestry`, `Explores.unique`).
-/

namespace Bindery.Tree

open Loop

variable {t : Tree} {m b c id : Nat} {unseen seen found : List Nat} {usr : Usr}
  {bases visited : List Usr}

/-! ## Depth first, from left to right -/

/-- The search through a list of bases, with some classes seen before, finds classes in this order:
a class that is new comes first, then what the search below it finds, then what the rest of the list
leads to besides.  A base that is no class of the tree, or one seen before, leads nowhere. -/
inductive Explores (t : Tree) : (seen : List Nat) → (bases : List Usr) → (found : List Nat) → Prop
  | done (seen : List Nat) : Explores t seen [] []
  | skip {seen found : List Nat} {usr : Usr} {bases : List Usr}
      (hseen : ∀ id, t.class? usr = some id → id ∈ seen) (hrest : Explores t seen bases found) :
      Explores t seen (usr :: bases) found
  | enter {seen below found : List Nat} {usr : Usr} {bases : List Usr} {id : Nat}
      (hclass : t.class? usr = some id) (hnew : id ∉ seen)
      (hbelow : Explores t (id :: seen) (t.decl id).bases below)
      (hrest : Explores t (id :: below ++ seen) bases found) :
      Explores t seen (usr :: bases) (id :: below ++ found)

theorem Explores.unique {found' : List Nat} (h : t.Explores seen bases found)
    (h' : t.Explores seen bases found') : found' = found := by
  induction h generalizing found' with
  | done seen =>
    cases h'
    rfl
  | skip hseen _ ih =>
    cases h' with
    | skip _ hrest' => exact ih hrest'
    | enter hclass' hnew' _ _ => exact absurd (hseen _ hclass') hnew'
  | enter hclass hnew _ _ ihbelow ihrest =>
    cases h' with
    | skip hseen' _ => exact absurd (hseen' _ hclass) hnew
    | enter hclass' hnew' hbelow' hrest' =>
      obtain rfl := Option.some.inj (hclass'.symm.trans hclass)
      obtain rfl := ihbelow hbelow'
      rw [ihrest hrest']

/-- The classes that are unseen are those that have not been seen. -/
def Complements (t : Tree) (seen unseen : List Nat) : Prop :=
  ∀ usr id, t.class? usr = some id → (id ∈ unseen ↔ id ∉ seen)

lemma complements_nil (t : Tree) : t.Complements [] t.ids := by
  intro usr id hclass
  exact iff_of_true (mem_ids_iff.2 (class?_lt_size hclass)) List.not_mem_nil

lemma Complements.enter (h : t.Complements seen unseen) (hunseen : unseen.Nodup) (id : Nat) :
    t.Complements (id :: seen) (unseen.erase id) := by
  intro usr x hclass
  rw [hunseen.mem_erase_iff, h usr x hclass, List.mem_cons, not_or]

lemma Complements.leave (h : t.Complements seen unseen) (below : List Nat) :
    t.Complements (below ++ seen) (unseen.filter (· ∉ below)) := by
  intro usr x hclass
  rw [List.mem_filter, h usr x hclass, List.mem_append, not_or, decide_eq_true_eq, and_comm]

/-- The recursion that keeps what is to be searched in one list of bases is the recursive search. -/
theorem explores_ancestry (hunseen : unseen.Nodup) (hseen : t.Complements seen unseen)
    (bases : List Usr) : t.Explores seen bases (t.ancestry unseen bases) := by
  -- entering a class leaves fewer classes unseen, below it and after it
  induction hn : unseen.length using Nat.strong_induction_on generalizing unseen seen bases with
  | _ n ih =>
    induction bases with
    | nil =>
      rw [ancestry]
      exact .done seen
    | cons usr bases ihbases =>
      cases hclass : t.class? usr with
      | none =>
        rw [ancestry_cons_of_none hclass]
        exact .skip (by simp [hclass]) ihbases
      | some id =>
        by_cases hid : id ∈ unseen
        · have hbelow : t.Explores (id :: seen) (t.decl id).bases
              (t.ancestry (unseen.erase id) (t.decl id).bases) := by
            refine ih _ ?_ (hunseen.erase id) (hseen.enter hunseen id) _ rfl
            rw [List.length_erase_of_mem hid, ← hn]
            exact Nat.sub_lt (List.length_pos_of_mem hid) Nat.one_pos
          rw [ancestry_cons_of_mem hclass hid, ancestry_append (hunseen.erase id),
            ← List.cons_append, filter_erase hunseen]
          refine .enter hclass ((hseen usr id hclass).1 hid) hbelow ?_
          refine ih _ ?_ (hunseen.filter _) (hseen.leave _) bases rfl
          rw [← hn]
          exact List.length_filter_lt_length_iff_exists.2 ⟨id, hid, by simp⟩
        · rw [ancestry_cons_of_notMem hclass hid]
          refine .skip (fun x hx => ?_) ihbases
          obtain rfl := Option.some.inj (hclass.symm.trans hx)
          by_contra hnew
          exact hid ((hseen usr id hclass).2 hnew)

/-! ## The loop -/

/-- A search under way: the identifiers that are still to be looked at, the next of them last, those
that have been, and the methods found so far. -/
structure BaseSearch where
  stack : List Usr
  visited : List Usr
  found : List Nat

/-- Takes an identifier from the stack and marks it.  If it is a new one and names a class, takes
down the methods of that class that are overridden by the method `m`, and puts the bases of the
class on the stack, the first of them on top. -/
def searchNext (t : Tree) (m : Nat) (s : BaseSearch) : Option BaseSearch :=
  match s.stack.getLast? with
  | none => none
  | some usr =>
    if usr ∈ s.visited then some ⟨s.stack.dropLast, s.visited, s.found⟩
    else
      match t.class? usr with
      | none => some ⟨s.stack.dropLast, usr :: s.visited, s.found⟩
      | some base =>
        some ⟨s.stack.dropLast ++ (t.decl base).bases.reverse, usr :: s.visited,
          s.found ++ t.overriddenIn m base⟩

/-- The methods that a method overrides, found with the help of a stack.  A static method overrides
none. -/
noncomputable def searchOverridden (t : Tree) (m : Nat) : Part (List Nat) :=
  match (t.decl m).method?, t.parent? m with
  | some own, some owner =>
    if own.isStatic then .some []
    else
      (StateTransition.eval (t.searchNext m) ⟨(t.decl owner).bases.reverse, [], []⟩).map (·.found)
  | _, _ => .some []

/-- A class is unseen as long as its identifier is not marked. -/
def Marks (t : Tree) (visited : List Usr) (unseen : List Nat) : Prop :=
  ∀ usr id, t.class? usr = some id → (id ∈ unseen ↔ usr ∉ visited)

lemma class?_inj {usr' : Usr} (h : t.class? usr = some id) (h' : t.class? usr' = some id) :
    usr = usr' := by
  have hget := get?_eq_some (Option.filter_eq_some_iff.1 h).1
  have hget' := get?_eq_some (Option.filter_eq_some_iff.1 h').1
  exact hget.2.symm.trans hget'.2

lemma marks_nil (t : Tree) : t.Marks [] t.ids := by
  intro usr id hclass
  exact iff_of_true (mem_ids_iff.2 (class?_lt_size hclass)) List.not_mem_nil

lemma Marks.cons_of_none (h : t.Marks visited unseen) (hclass : t.class? usr = none) :
    t.Marks (usr :: visited) unseen := by
  intro usr' id hclass'
  have hne : usr' ≠ usr := by
    rintro rfl
    exact absurd (hclass.symm.trans hclass') (by simp)
  rw [h usr' id hclass', List.mem_cons, or_iff_right hne]

lemma Marks.cons_of_some (h : t.Marks visited unseen) (hunseen : unseen.Nodup)
    (hclass : t.class? usr = some id) : t.Marks (usr :: visited) (unseen.erase id) := by
  intro usr' id' hclass'
  have hsame : id' = id ↔ usr' = usr := by
    constructor
    · rintro rfl
      exact class?_inj hclass' hclass
    · rintro rfl
      exact Option.some.inj (hclass'.symm.trans hclass)
  rw [hunseen.mem_erase_iff, h usr' id' hclass', List.mem_cons, not_or, ne_eq, hsame]

lemma searchNext_of_mem (hmem : usr ∈ visited) (stack : List Usr) :
    t.searchNext m ⟨stack ++ [usr], visited, found⟩ = some ⟨stack, visited, found⟩ := by
  simp only [searchNext, List.getLast?_concat, List.dropLast_concat, if_pos hmem]

lemma searchNext_of_none (hnew : usr ∉ visited) (hclass : t.class? usr = none)
    (stack : List Usr) :
    t.searchNext m ⟨stack ++ [usr], visited, found⟩ = some ⟨stack, usr :: visited, found⟩ := by
  simp only [searchNext, List.getLast?_concat, List.dropLast_concat, if_neg hnew, hclass]

lemma searchNext_of_class (hnew : usr ∉ visited) (hclass : t.class? usr = some c)
    (stack : List Usr) :
    t.searchNext m ⟨stack ++ [usr], visited, found⟩ =
      some ⟨stack ++ (t.decl c).bases.reverse, usr :: visited, found ++ t.overriddenIn m c⟩ := by
  simp only [searchNext, List.getLast?_concat, List.dropLast_concat, if_neg hnew, hclass]

/-- The loop ends when nothing that can be reached is unseen, and has gone through the classes as
the recursion does. -/
theorem eval_searchNext (hunseen : unseen.Nodup) (hmarks : t.Marks visited unseen) (m : Nat)
    (bases : List Usr) (found : List Nat) :
    ∃ last, StateTransition.eval (t.searchNext m) ⟨bases.reverse, visited, found⟩ = .some
      ⟨[], last, found ++ (t.ancestry unseen bases).flatMap (t.overriddenIn m)⟩ := by
  induction unseen, bases using ancestry.induct t generalizing visited found with
  | case1 unseen =>
    refine ⟨visited, ?_⟩
    rw [ancestry, List.flatMap_nil, List.append_nil]
    exact eval_of_none rfl
  | case2 unseen usr bases hclass ih =>
    rw [ancestry_cons_of_none hclass, List.reverse_cons]
    by_cases hmem : usr ∈ visited
    · rw [eval_of_some (searchNext_of_mem hmem _)]
      exact ih hunseen hmarks found
    · rw [eval_of_some (searchNext_of_none hmem hclass _)]
      exact ih hunseen (hmarks.cons_of_none hclass) found
  | case3 unseen usr bases id hclass hid ih =>
    have hnew : usr ∉ visited := (hmarks usr id hclass).1 hid
    rw [ancestry_cons_of_mem hclass hid, List.reverse_cons,
      eval_of_some (searchNext_of_class hnew hclass _), ← List.reverse_append, List.flatMap_cons,
      ← List.append_assoc]
    exact ih (hunseen.erase id) (hmarks.cons_of_some hunseen hclass) _
  | case4 unseen usr bases id hclass hid ih =>
    have hmem : usr ∈ visited := by
      by_contra hnew
      exact hid ((hmarks usr id hclass).2 hnew)
    rw [ancestry_cons_of_notMem hclass hid, List.reverse_cons,
      eval_of_some (searchNext_of_mem hmem _)]
    exact ih hunseen hmarks found

lemma searchOverridden_eq (t : Tree) (m : Nat) :
    t.searchOverridden m = .some (t.overridden m) := by
  unfold searchOverridden overridden
  cases (t.decl m).method? with
  | none => rfl
  | some own =>
    cases t.parent? m with
    | none => rfl
    | some owner =>
      obtain ⟨last, hlast⟩ := eval_searchNext t.ids_nodup t.marks_nil m (t.decl owner).bases []
      cases hstatic : own.isStatic with
      | true => simp [hstatic]
      | false =>
        simp only [hstatic, hlast, Part.map_some, List.nil_append]
        rfl

/-! ## What is found -/

/-- What a method overrides is what is inherited from the classes that its class derives from. -/
lemma mem_overridden_iff_derivesFrom {own : Method} (hown : (t.decl m).method? = some own)
    (hinstance : own.isStatic = false) (hc : t.parent? m = some c) :
    b ∈ t.overridden m ↔ ∃ x other, t.DerivesFrom c x ∧ t.parent? b = some x ∧
      (t.decl b).method? = some other ∧ other.isVirtual = true ∧
      (t.decl b).headerName = (t.decl m).headerName ∧
      other.signature.parameterTypes = own.signature.parameterTypes := by
  rw [mem_overridden_iff]
  constructor
  · rintro ⟨own', owner, x, hown', -, howner, hx, hparent, -, hover⟩
    obtain ⟨own'', other, hown'', hother, hvirtual, hname, htypes⟩ := overrides_iff.1 hover
    obtain rfl := Option.some.inj (hown.symm.trans hown'')
    obtain rfl := Option.some.inj (hc.symm.trans howner)
    exact ⟨x, other, mem_ancestry_iff.1 hx, hparent, hother, hvirtual, hname, htypes⟩
  · rintro ⟨x, other, hderives, hparent, hother, hvirtual, hname, htypes⟩
    exact ⟨own, c, x, hown, hinstance, hc, mem_ancestry_iff.2 hderives, hparent,
      (Decl.signature?_of_method? hother).1,
      overrides_iff.2 ⟨own, other, hown, hother, hvirtual, hname, htypes⟩⟩

/-- Each method is found once, since each class is entered once. -/
lemma nodup_overridden (t : Tree) (m : Nat) : (t.overridden m).Nodup := by
  cases hinstance : t.isInstanceMethod m with
  | false =>
    rw [overridden_eq_nil hinstance]
    exact List.nodup_nil
  | true =>
    obtain ⟨c, hc⟩ := exists_owner hinstance
    rw [overridden_eq_flatMap hinstance hc, List.nodup_flatMap]
    refine ⟨fun x _ => t.nodup_overriddenIn m x, ?_⟩
    refine (nodup_ancestry t.ids_nodup _).imp fun {x y} hne b hx hy => hne ?_
    have hparent := (mem_overriddenIn_iff.1 hx).1
    exact Option.some.inj (hparent.symm.trans (mem_overriddenIn_iff.1 hy).1)

/-- The search for what a method overrides ends on every hierarchy.  It finds, each once, the
virtual methods of its name and parameter types in the classes that its own class derives from, in
the order in which a recursive search comes to these classes. -/
theorem searchOverridden_exact {own : Method} (hown : (t.decl m).method? = some own)
    (hinstance : own.isStatic = false) (hc : t.parent? m = some c) :
    t.searchOverridden m = .some (t.overridden m) ∧
      (t.overridden m).Nodup ∧
      (∀ b, b ∈ t.overridden m ↔ ∃ x other, t.DerivesFrom c x ∧ t.parent? b = some x ∧
        (t.decl b).method? = some other ∧ other.isVirtual = true ∧
        (t.decl b).headerName = (t.decl m).headerName ∧
        other.signature.parameterTypes = own.signature.parameterTypes) ∧
      ∃ classes, t.Explores [] (t.decl c).bases classes ∧
        (∀ found, t.Explores [] (t.decl c).bases found → found = classes) ∧
        classes.Nodup ∧ (∀ x, x ∈ classes ↔ t.DerivesFrom c x) ∧
        t.overridden m = classes.flatMap (t.overriddenIn m) := by
  have hmethod : t.isInstanceMethod m = true := by
    rw [isInstanceMethod, hown, Option.any_some, hinstance]
    rfl
  have hexplores := explores_ancestry t.ids_nodup t.complements_nil (t.decl c).bases
  refine ⟨searchOverridden_eq t m, nodup_overridden t m,
    fun b => mem_overridden_iff_derivesFrom hown hinstance hc, _, hexplores,
    fun found hfound => hexplores.unique hfound, nodup_ancestry t.ids_nodup _,
    fun x => mem_ancestry_iff, overridden_eq_flatMap hmethod hc⟩

/-- A class `D` with a base list that names `B` twice, a namespace, and nothing at all.  Its bases
`B` and `C` are both derived from `A`; and `A` is derived from `B` again, and `C` from `D`. -/
def tangledTree : Tree :=
  empty.changed [
    .insert none (.new ⟨"tu:a.h"⟩ "a.h" .translationUnit),
    .insert (some 0) (.new ⟨"N"⟩ "N" .namespaceScope),
    .insert (some 0) (.new ⟨"D"⟩ "D"
      (.classType true [⟨"B"⟩, ⟨"N"⟩, ⟨"gone"⟩, ⟨"B"⟩, ⟨"C"⟩])),
    .insert (some 2) (fooMethod "d" none none),
    .insert (some 0) (.new ⟨"B"⟩ "B" (.classType true [⟨"A"⟩])),
    .insert (some 4) (fooMethod "b" none none),
    .insert (some 0) (.new ⟨"C"⟩ "C" (.classType true [⟨"A"⟩, ⟨"D"⟩])),
    .insert (some 6) (fooMethod "c" none none),
    .insert (some 0) (.new ⟨"A"⟩ "A" (.classType true [⟨"B"⟩])),
    .insert (some 8) (fooMethod "a" none none)]

/-- The class derives from itself, so its own method comes last. -/
theorem searchOverridden_exact_tangledTree :
    tangledTree.searchOverridden 3 = .some [5, 9, 7, 3] ∧ tangledTree.DerivesFrom 2 2 := by
  have hoverridden : tangledTree.overridden 3 = [5, 9, 7, 3] := by cbv
  have hparent : tangledTree.parent? 3 = some 2 := by decide +kernel
  have hown : (tangledTree.decl 3).method? = some ⟨⟨.void, [⟨"x", .builtin "int", none⟩,
      ⟨"y", .builtin "int", none⟩], false⟩, true, false, none, none⟩ := by decide +kernel
  obtain ⟨hsearch, -, hmem, -⟩ := searchOverridden_exact hown rfl hparent
  obtain ⟨x, -, hderives, hx, -⟩ := (hmem 3).1 (by rw [hoverridden]; decide)
  obtain rfl : x = 2 := Option.some.inj (hx.symm.trans hparent)
  exact ⟨hsearch.trans (congrArg Part.some hoverridden), hderives⟩

end Bindery.Tree
