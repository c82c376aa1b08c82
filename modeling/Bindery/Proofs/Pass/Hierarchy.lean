import Mathlib.Data.Finset.Card
import Mathlib.Logic.Relation
import Bindery.Proofs.Pass.InheritedDefaults
import Bindery.Proofs.Tree.Rearrangement

/-!
# The order in which base classes are searched

The search goes depth first through the base lists and skips what it has seen.  It can be taken
apart: a list of bases is searched before the rest of it (`ancestry_append`), and what has been seen
before is left out of what would be found otherwise (`ancestry_filter`).

If no class derives from itself the search below a class does not come back to it.  Then all that a
class derives from follows it directly, unless some of it has been found before (`ancestry_cons`).
So the first class found that gives a value is the first one in any order of the base lists that
tries a class, then its bases, then the rest (`findSome?_ancestry_cons`).
-/

namespace Bindery.Tree

variable {t : Tree} {unseen seen : List Nat} {bases rest : List Usr} {usr : Usr} {id x y : Nat}

/-! ## Derived classes -/

/-- The class `x` has the class `y` in its base list. -/
def HasBase (t : Tree) (x y : Nat) : Prop := ∃ usr ∈ (t.decl x).bases, t.class? usr = some y

/-- The class `x` reaches the class `y` through base lists. -/
def DerivesFrom (t : Tree) (x y : Nat) : Prop := Relation.TransGen t.HasBase x y

/-- No class reaches itself through base lists. -/
def Acyclic (t : Tree) : Prop := ∀ x, ¬ t.DerivesFrom x x

lemma mem_ancestry_iff : y ∈ t.ancestry t.ids (t.decl x).bases ↔ t.DerivesFrom x y := by
  constructor
  · refine forall_mem_ancestry (C := t.DerivesFrom x) ?_ ?_ y
    · exact fun z hz usr husr y hy => hz.tail ⟨usr, husr, hy⟩
    · exact fun usr husr y hy => .single ⟨usr, husr, hy⟩
  · intro h
    induction h with
    | single h =>
      obtain ⟨usr, husr, hy⟩ := h
      exact (mem_ancestry _ _).1 usr husr _ hy (mem_ids_iff.2 (class?_lt_size hy))
    | tail _ h ih =>
      obtain ⟨usr, husr, hy⟩ := h
      exact holdsBases_ancestry _ _ ih usr husr _ hy

/-- What is found by the search is a class. -/
lemma kind_of_mem_ancestry (hx : x ∈ t.ancestry t.ids (t.decl y).bases) :
    (t.decl x).kind = .classType := by
  refine forall_mem_ancestry (C := fun x => (t.decl x).kind = .classType) ?_ ?_ x hx
  · exact fun _ _ usr _ z hz => of_decide_eq_true (Option.filter_eq_some_iff.1 hz).2
  · exact fun usr _ z hz => of_decide_eq_true (Option.filter_eq_some_iff.1 hz).2

lemma ids_nodup (t : Tree) : t.ids.Nodup := List.nodup_range

/-- What holds of a class if it holds of its bases holds of all classes. -/
lemma Acyclic.wellFounded (h : t.Acyclic) : WellFounded (flip t.HasBase) := by
  -- a base derives from fewer classes, since it does not derive from itself
  refine Subrelation.wf (r := InvImage (· < ·) fun x =>
    (t.ancestry t.ids (t.decl x).bases).toFinset.card) ?_ (InvImage.wf _ wellFounded_lt)
  intro y x hbase
  have hbase : t.HasBase x y := hbase
  refine Finset.card_lt_card ⟨fun z hz => ?_, fun hsub => h y ?_⟩
  · rw [List.mem_toFinset, mem_ancestry_iff] at hz ⊢
    exact .head hbase hz
  · have hy := hsub (List.mem_toFinset.2 (mem_ancestry_iff.2 (.single hbase)))
    rwa [List.mem_toFinset, mem_ancestry_iff] at hy

/-- If every class is declared before its bases, no class derives from itself. -/
lemma acyclic_of_lt
    (h : ∀ x < t.size, ∀ usr ∈ (t.decl x).bases, ∀ y ∈ t.class? usr, x < y) : t.Acyclic := by
  have hlt : ∀ x y, t.DerivesFrom x y → x < y := by
    intro x y hxy
    refine Relation.TransGen.trans_induction_on (motive := fun {x y} _ => x < y) hxy ?_
      fun _ _ => Nat.lt_trans
    rintro x y ⟨usr, husr, hy⟩
    refine h x ?_ usr husr y hy
    by_contra hx
    rw [decl_of_size_le (Nat.le_of_not_lt hx)] at husr
    exact absurd husr List.not_mem_nil
  exact fun x hx => Nat.lt_irrefl x (hlt x x hx)

/-! ## Parts of the search -/

lemma ancestry_cons_of_none (h : t.class? usr = none) :
    t.ancestry unseen (usr :: bases) = t.ancestry unseen bases := by
  rw [ancestry, h]

lemma ancestry_cons_of_mem (h : t.class? usr = some id) (hid : id ∈ unseen) :
    t.ancestry unseen (usr :: bases) =
      id :: t.ancestry (unseen.erase id) ((t.decl id).bases ++ bases) := by
  rw [ancestry, h]
  exact if_pos hid

lemma ancestry_cons_of_notMem (h : t.class? usr = some id) (hid : id ∉ unseen) :
    t.ancestry unseen (usr :: bases) = t.ancestry unseen bases := by
  rw [ancestry, h]
  exact if_neg hid

/-- Bases that lead to seen classes only are skipped. -/
lemma ancestry_append_of_seen
    (h : ∀ usr ∈ bases, ∀ y, t.class? usr = some y → y ∉ unseen) :
    t.ancestry unseen (bases ++ rest) = t.ancestry unseen rest := by
  induction bases with
  | nil => rfl
  | cons usr bases ih =>
    obtain ⟨hfirst, hbases⟩ := List.forall_mem_cons.1 h
    rw [List.cons_append, ← ih hbases]
    cases hclass : t.class? usr with
    | none => exact ancestry_cons_of_none hclass
    | some id => exact ancestry_cons_of_notMem hclass (hfirst id hclass)

/-- A class that is not found makes no difference. -/
lemma ancestry_erase (h : id ∉ t.ancestry unseen bases) :
    t.ancestry (unseen.erase id) bases = t.ancestry unseen bases := by
  induction unseen, bases using ancestry.induct t with
  | case1 unseen => simp [ancestry]
  | case2 unseen usr bases hclass ih =>
    rw [ancestry_cons_of_none hclass] at h ⊢
    rw [ancestry_cons_of_none hclass, ih h]
  | case3 unseen usr bases x hclass hx ih =>
    rw [ancestry_cons_of_mem hclass hx] at h ⊢
    rw [List.mem_cons, not_or] at h
    rw [ancestry_cons_of_mem hclass ((List.mem_erase_of_ne (Ne.symm h.1)).2 hx), List.erase_comm,
      ih h.2]
  | case4 unseen usr bases x hclass hx ih =>
    rw [ancestry_cons_of_notMem hclass hx] at h ⊢
    rw [ancestry_cons_of_notMem hclass (fun hmem => hx (List.mem_of_mem_erase hmem)), ih h]

lemma ancestry_subset (unseen : List Nat) (bases : List Usr) :
    t.ancestry unseen bases ⊆ unseen := by
  induction unseen, bases using ancestry.induct t with
  | case1 unseen => simp [ancestry]
  | case2 unseen usr bases hclass ih => rwa [ancestry_cons_of_none hclass]
  | case3 unseen usr bases id hclass hid ih =>
    rw [ancestry_cons_of_mem hclass hid]
    exact List.cons_subset.2 ⟨hid, fun x hx => List.mem_of_mem_erase (ih hx)⟩
  | case4 unseen usr bases id hclass hid ih => rwa [ancestry_cons_of_notMem hclass hid]

/-- Each class is found once. -/
lemma nodup_ancestry (hunseen : unseen.Nodup) (bases : List Usr) :
    (t.ancestry unseen bases).Nodup := by
  induction unseen, bases using ancestry.induct t with
  | case1 unseen => simp [ancestry]
  | case2 unseen usr bases hclass ih => rw [ancestry_cons_of_none hclass]; exact ih hunseen
  | case3 unseen usr bases id hclass hid ih =>
    rw [ancestry_cons_of_mem hclass hid]
    exact List.nodup_cons.2
      ⟨fun hmem => hunseen.not_mem_erase (ancestry_subset _ _ hmem), ih (hunseen.erase id)⟩
  | case4 unseen usr bases id hclass hid ih =>
    rw [ancestry_cons_of_notMem hclass hid]
    exact ih hunseen

/-- The search only asks which classes are unseen. -/
lemma ancestry_congr {unseen' : List Nat} (hunseen : unseen.Nodup) (hunseen' : unseen'.Nodup)
    (h : ∀ usr y, t.class? usr = some y → (y ∈ unseen' ↔ y ∈ unseen)) (bases : List Usr) :
    t.ancestry unseen' bases = t.ancestry unseen bases := by
  induction unseen, bases using ancestry.induct t generalizing unseen' with
  | case1 unseen => simp [ancestry]
  | case2 unseen usr bases hclass ih =>
    rw [ancestry_cons_of_none hclass, ancestry_cons_of_none hclass, ih hunseen hunseen' h]
  | case3 unseen usr bases id hclass hid ih =>
    have hrest : ∀ usr y, t.class? usr = some y → (y ∈ unseen'.erase id ↔ y ∈ unseen.erase id) := by
      intro usr y hy
      rw [hunseen.mem_erase_iff, hunseen'.mem_erase_iff, h usr y hy]
    rw [ancestry_cons_of_mem hclass hid, ancestry_cons_of_mem hclass ((h usr id hclass).2 hid),
      ih (hunseen.erase id) (hunseen'.erase id) hrest]
  | case4 unseen usr bases id hclass hid ih =>
    rw [ancestry_cons_of_notMem hclass hid,
      ancestry_cons_of_notMem hclass (fun hmem => hid ((h usr id hclass).1 hmem)),
      ih hunseen hunseen' h]

/-- Taking a class out of those that are unseen, and then those that have been found. -/
lemma filter_erase (hunseen : unseen.Nodup) (id : Nat) (found : List Nat) :
    (unseen.erase id).filter (· ∉ found) = unseen.filter (· ∉ id :: found) := by
  rw [hunseen.erase_eq_filter, List.filter_filter]
  refine List.filter_congr fun x _ => ?_
  by_cases hx : x = id <;> simp [hx]

/-- The search of some bases comes before that of the rest, which starts with what is unseen
then. -/
theorem ancestry_append (hunseen : unseen.Nodup) (bases rest : List Usr) :
    t.ancestry unseen (bases ++ rest) = t.ancestry unseen bases ++
      t.ancestry (unseen.filter (· ∉ t.ancestry unseen bases)) rest := by
  induction unseen, bases using ancestry.induct t with
  | case1 unseen => simp [ancestry]
  | case2 unseen usr bases hclass ih =>
    rw [List.cons_append, ancestry_cons_of_none hclass, ancestry_cons_of_none hclass, ih hunseen]
  | case3 unseen usr bases id hclass hid ih =>
    rw [List.cons_append, ancestry_cons_of_mem hclass hid, ancestry_cons_of_mem hclass hid,
      ← List.append_assoc, ih (hunseen.erase id), filter_erase hunseen, List.cons_append]
  | case4 unseen usr bases id hclass hid ih =>
    rw [List.cons_append, ancestry_cons_of_notMem hclass hid, ancestry_cons_of_notMem hclass hid,
      ih hunseen]

/-- Starting with some classes seen, and with them all that they derive from, leaves these out. -/
theorem ancestry_filter (hunseen : unseen.Nodup) (hseen : t.HoldsBases (· ∈ seen))
    (bases : List Usr) : t.ancestry (unseen.filter (· ∉ seen)) bases =
      (t.ancestry unseen bases).filter (· ∉ seen) := by
  induction unseen, bases using ancestry.induct t with
  | case1 unseen => simp [ancestry]
  | case2 unseen usr bases hclass ih =>
    rw [ancestry_cons_of_none hclass, ancestry_cons_of_none hclass, ih hunseen]
  | case3 unseen usr bases id hclass hid ih =>
    rw [ancestry_cons_of_mem hclass hid, List.filter_cons, ← ih (hunseen.erase id),
      filter_erase hunseen]
    by_cases hmem : id ∈ seen
    · -- the class is skipped, and so would be its bases
      have hskipped : ∀ usr ∈ (t.decl id).bases, ∀ y, t.class? usr = some y →
          y ∉ unseen.filter (· ∉ id :: seen) := by
        intro usr husr y hy
        simp [hseen id hmem usr husr y hy]
      have hsame : unseen.filter (· ∉ id :: seen) = unseen.filter (· ∉ seen) :=
        List.filter_congr fun x _ => by
          by_cases hx : x = id <;> simp [hx, hmem]
      rw [ancestry_append_of_seen hskipped, hsame,
        ancestry_cons_of_notMem hclass (by simp [hmem]), if_neg (by simp [hmem])]
    · have hrest : (unseen.filter (· ∉ seen)).erase id = unseen.filter (· ∉ id :: seen) := by
        rw [← filter_erase hunseen, hunseen.erase_eq_filter, (hunseen.filter _).erase_eq_filter,
          List.filter_comm]
      rw [ancestry_cons_of_mem hclass (by simp [hmem, hid]), if_pos (by simp [hmem]), hrest]
  | case4 unseen usr bases id hclass hid ih =>
    rw [ancestry_cons_of_notMem hclass hid, ancestry_cons_of_notMem hclass (by simp [hid]),
      ih hunseen]

/-! ## Searching without cycles -/

/-- What a class derives from follows it, and what has not been found so far follows that. -/
theorem ancestry_cons (h : t.Acyclic) (hclass : t.class? usr = some id) (bases : List Usr) :
    t.ancestry t.ids (usr :: bases) = (id :: t.ancestry t.ids (t.decl id).bases) ++
      (t.ancestry t.ids bases).filter (· ∉ id :: t.ancestry t.ids (t.decl id).bases) := by
  have hid : id ∉ t.ancestry t.ids (t.decl id).bases := fun hmem => h id (mem_ancestry_iff.1 hmem)
  have hbases : t.HoldsBases (· ∈ id :: t.ancestry t.ids (t.decl id).bases) := by
    intro x hx usr husr y hy
    refine List.mem_cons_of_mem _ ?_
    rcases List.mem_cons.1 hx with rfl | hx
    · exact (mem_ancestry _ _).1 usr husr y hy (mem_ids_iff.2 (class?_lt_size hy))
    · exact holdsBases_ancestry _ x hx usr husr y hy
  rw [ancestry_cons_of_mem hclass (mem_ids_iff.2 (class?_lt_size hclass)),
    ancestry_append (t.ids_nodup.erase id), ancestry_erase hid, filter_erase t.ids_nodup,
    ancestry_filter t.ids_nodup hbases, List.cons_append]

/-- What is left out gives no value, since it would have been found before. -/
lemma or_findSome?_filter {α : Type} (f : Nat → Option α) (found rest : List Nat) :
    (found.findSome? f).or ((rest.filter (· ∉ found)).findSome? f) =
      (found.findSome? f).or (rest.findSome? f) := by
  cases hfound : found.findSome? f with
  | some value => rfl
  | none =>
    rw [List.findSome?_eq_none_iff] at hfound
    rw [Option.none_or, Option.none_or]
    induction rest with
    | nil => rfl
    | cons x rest ih =>
      by_cases hx : x ∈ found
      · rw [List.filter_cons_of_neg (by simpa using hx), ih, List.findSome?_cons, hfound x hx]
      · rw [List.filter_cons_of_pos (by simpa using hx), List.findSome?_cons, List.findSome?_cons,
          ih]

/-- The first value found is that of the class, else of what it derives from, else of the rest. -/
theorem findSome?_ancestry_cons {α : Type} (h : t.Acyclic) (hclass : t.class? usr = some id)
    (bases : List Usr) (f : Nat → Option α) : (t.ancestry t.ids (usr :: bases)).findSome? f =
      ((f id).or ((t.ancestry t.ids (t.decl id).bases).findSome? f)).or
        ((t.ancestry t.ids bases).findSome? f) := by
  rw [ancestry_cons h hclass, List.findSome?_append, or_findSome?_filter, List.findSome?_cons]
  cases f id <;> rfl

/-- Filling gaps with what would be found behind them does not change what is found first. -/
lemma findSome?_ancestry_congr {α : Type} (h : t.Acyclic) {f g : Nat → Option α}
    (hfill : ∀ x, g x = f x ∨
      f x = none ∧ g x = (t.ancestry t.ids (t.decl x).bases).findSome? f) (bases : List Usr) :
    (t.ancestry t.ids bases).findSome? g = (t.ancestry t.ids bases).findSome? f := by
  -- first for base lists whose classes are known to have the property
  have hlist : ∀ bases : List Usr, (∀ usr ∈ bases, ∀ y, t.class? usr = some y →
      (t.ancestry t.ids (t.decl y).bases).findSome? g =
        (t.ancestry t.ids (t.decl y).bases).findSome? f) →
      (t.ancestry t.ids bases).findSome? g = (t.ancestry t.ids bases).findSome? f := by
    intro bases hbases
    induction bases with
    | nil => simp [ancestry]
    | cons usr bases ih =>
      obtain ⟨hfirst, hbases⟩ := List.forall_mem_cons.1 hbases
      cases hclass : t.class? usr with
      | none => rw [ancestry_cons_of_none hclass, ih hbases]
      | some y =>
        rw [findSome?_ancestry_cons h hclass, findSome?_ancestry_cons h hclass, ih hbases,
          hfirst y hclass]
        rcases hfill y with hsame | ⟨hnone, hfound⟩
        · rw [hsame]
        · rw [hfound, hnone, Option.or_self, Option.none_or]
  have hclasses : ∀ x, (t.ancestry t.ids (t.decl x).bases).findSome? g =
      (t.ancestry t.ids (t.decl x).bases).findSome? f := by
    intro x
    induction x using h.wellFounded.induction with
    | _ x ih => exact hlist _ fun usr husr y hy => ih y ⟨usr, husr, hy⟩
  exact hlist bases fun usr _ y _ => hclasses y

/-! ## Searching after a development -/

section Developed

variable {u : Tree} {free : List Field}

lemma bases_eq_nil_of_kind_ne {d : Decl} (h : d.kind ≠ .classType) : d.bases = [] := by
  revert h
  unfold Decl.kind Decl.bases
  cases d.payload <;> simp [Payload.kind]

/-- Classes are neither added nor given other bases. -/
lemma bases_of_develops (h : t.Develops free u) (x : Nat) :
    (u.decl x).bases = (t.decl x).bases := by
  by_cases hx : x < t.size
  · exact h.reads Decl.bases Decl.bases_shape hx
  · rw [decl_of_size_le (t := t) (Nat.le_of_not_lt hx)]
    refine bases_eq_nil_of_kind_ne ?_
    by_cases hx' : x < u.size
    · rw [h.method_of_le (Nat.le_of_not_lt hx) hx']
      decide
    · rw [decl_of_size_le (Nat.le_of_not_lt hx')]
      decide

lemma searched_of_develops (h : t.Develops free u) (x : Nat) :
    u.ancestry u.ids (u.decl x).bases = t.ancestry t.ids (t.decl x).bases := by
  rw [bases_of_develops h, ancestry_of_develops h]
  refine ancestry_congr t.ids_nodup u.ids_nodup (fun usr y hy => ?_) _
  have hlt := class?_lt_size hy
  have hle := h.size_le
  rw [mem_ids_iff, mem_ids_iff]
  omega

lemma derivesFrom_of_develops (h : t.Develops free u) :
    u.DerivesFrom x y ↔ t.DerivesFrom x y := by
  rw [← mem_ancestry_iff, ← mem_ancestry_iff, searched_of_develops h]

lemma Acyclic.of_develops (hacyclic : t.Acyclic) (h : t.Develops free u) : u.Acyclic :=
  fun x hx => hacyclic x ((derivesFrom_of_develops h).1 hx)

end Developed

/-! ## Searching in a rearranged tree -/

section Rearranged

open Equiv (Perm)

variable {σ : Perm Nat} {u : Tree}

lemma class?_of_rearranged (h : Rearranged σ t u) (usr : Usr) :
    u.class? usr = (t.class? usr).map σ := by
  rw [class?, class?, h.get?_eq, Option.filter_map]
  simp only [Function.comp_def, h.decl_eq]

lemma ancestry_of_rearranged (h : Rearranged σ t u) {unseen unseen' : List Nat}
    (hunseen : unseen'.Perm (unseen.map σ)) (bases : List Usr) :
    u.ancestry unseen' bases = (t.ancestry unseen bases).map σ := by
  -- the search only asks which classes are unseen, so these may come in any order
  induction unseen, bases using ancestry.induct t generalizing unseen' with
  | case1 unseen => simp [ancestry]
  | case2 unseen usr bases hclass ih =>
    have hclass' : u.class? usr = none := by rw [class?_of_rearranged h, hclass, Option.map_none]
    rw [ancestry_cons_of_none hclass, ancestry_cons_of_none hclass', ih hunseen]
  | case3 unseen usr bases id hclass hmem ih =>
    have hclass' : u.class? usr = some (σ id) := by
      rw [class?_of_rearranged h, hclass, Option.map_some]
    have hrest : (unseen'.erase (σ id)).Perm ((unseen.erase id).map σ) := by
      rw [List.map_erase σ.injective]
      exact hunseen.erase (σ id)
    rw [ancestry_cons_of_mem hclass hmem,
      ancestry_cons_of_mem hclass' (hunseen.mem_iff.2 (List.mem_map_of_mem hmem)), h.decl_eq,
      ih hrest, List.map_cons]
  | case4 unseen usr bases id hclass hmem ih =>
    have hclass' : u.class? usr = some (σ id) := by
      rw [class?_of_rearranged h, hclass, Option.map_some]
    have hmem' : σ id ∉ unseen' := by
      rwa [hunseen.mem_iff, List.mem_map_of_injective σ.injective]
    rw [ancestry_cons_of_notMem hclass hmem, ancestry_cons_of_notMem hclass' hmem', ih hunseen]

end Rearranged

end Bindery.Tree
