import Mathlib.Data.ENat.Lattice
import Mathlib.Data.Fintype.Pigeonhole
import Mathlib.Order.CompletePartialOrder
import Bindery.Text.Decimal
import Bindery.Proofs.Tree.Development

/-!
# Chains of typedefs

A type that names a typedef stands for the type declared there (`Tree.StandsFor`), and a chain of
such steps ends in a type that names none, or runs into a cycle (`chainLength_eq_top_iff`).

Following a chain for a limited number of steps gives the last type if the chain is shorter, and
else the type reached with the last step (`follow_cases`).  So types are resolved as they should
be, with a single exception (`resolvesRightly_iff`): where the chain ends exactly with the last step
that is allowed, its end is found but not recognised, and the chain is reported as too deep
(`not_resolvesRightly_aliasTree`).
-/

namespace Bindery.Tree

variable {t : Tree} {type next mid last : QualType} {m n steps : Nat}

/-- A type that names a typedef of the tree stands for the type declared there. -/
def StandsFor (t : Tree) (type next : QualType) : Prop :=
  ∃ usr id, type.declared? = some usr ∧ id < t.size ∧ (t.decl id).usr = usr ∧
    (t.decl id).payload = .typedef next

/-- The type names no typedef of the tree. -/
def IsFinal (t : Tree) (type : QualType) : Prop := ∀ next, ¬ t.StandsFor type next

/-- From a type one gets to another one by passing so many typedefs. -/
inductive Passes (t : Tree) : QualType → Nat → QualType → Prop
  | here (type : QualType) : Passes t type 0 type
  | through {type next last : QualType} {n : Nat} (h : t.StandsFor type next)
      (hrest : Passes t next n last) : Passes t type (n + 1) last

/-- The number of typedefs on the way from a type to one that names none.  There is no end to them
if the way goes round in a cycle. -/
noncomputable def chainLength (t : Tree) (type : QualType) : ℕ∞ :=
  ⨆ (n : Nat) (_ : ∃ last, t.Passes type n last), (n : ℕ∞)

/-! ## Single steps -/

lemma standsFor_iff : t.StandsFor type next ↔ t.typedefTarget? type = some next := by
  simp only [StandsFor, typedefTarget?, declared?, Option.bind_eq_some_iff, Option.map_eq_some_iff,
    get?_eq_some_iff]
  have hpayload (d : Decl) : d.underlying? = some next ↔ d.payload = .typedef next := by
    unfold Decl.underlying?
    cases d.payload <;> simp
  constructor
  · rintro ⟨usr, id, hnamed, hid, husr, hpay⟩
    exact ⟨_, ⟨id, ⟨usr, hnamed, hid, husr⟩, rfl⟩, (hpayload _).2 hpay⟩
  · rintro ⟨_, ⟨id, ⟨usr, hnamed, hid, husr⟩, rfl⟩, hpay⟩
    exact ⟨usr, id, hnamed, hid, husr, (hpayload _).1 hpay⟩

lemma isFinal_iff : t.IsFinal type ↔ t.typedefTarget? type = none := by
  simp only [IsFinal, standsFor_iff, Option.eq_none_iff_forall_ne_some, ne_eq]

/-- A typedef stands for one type. -/
lemma StandsFor.unique {next' : QualType} (h : t.StandsFor type next)
    (h' : t.StandsFor type next') : next = next' :=
  Option.some.inj ((standsFor_iff.1 h).symm.trans (standsFor_iff.1 h'))

/-! ## Steps in a row -/

@[simp]
lemma passes_zero_iff : t.Passes type 0 last ↔ last = type :=
  ⟨fun | .here _ => rfl, by rintro rfl; exact .here _⟩

lemma passes_succ_iff :
    t.Passes type (n + 1) last ↔ ∃ next, t.StandsFor type next ∧ t.Passes next n last :=
  ⟨fun | .through h hrest => ⟨_, h, hrest⟩, fun ⟨_, h, hrest⟩ => .through h hrest⟩

lemma passes_one_iff : t.Passes type 1 last ↔ t.StandsFor type last := by
  simp [passes_succ_iff]

lemma passes_add_iff :
    t.Passes type (m + n) last ↔ ∃ mid, t.Passes type m mid ∧ t.Passes mid n last := by
  induction m generalizing type with
  | zero => simp
  | succ m ih =>
    rw [Nat.succ_add_eq_add_succ, Nat.add_succ, passes_succ_iff]
    simp only [ih, passes_succ_iff]
    tauto

lemma Passes.exists_of_le (h : t.Passes type n last) (hle : m ≤ n) :
    ∃ mid, t.Passes type m mid := by
  obtain ⟨rest, rfl⟩ := Nat.exists_eq_add_of_le hle
  obtain ⟨mid, hmid, -⟩ := passes_add_iff.1 h
  exact ⟨mid, hmid⟩

lemma Passes.unique {last' : QualType} (h : t.Passes type n last) (h' : t.Passes type n last') :
    last = last' := by
  induction h with
  | here type => exact (passes_zero_iff.1 h').symm
  | through hstep _ ih =>
    obtain ⟨next', hstep', hrest'⟩ := passes_succ_iff.1 h'
    exact ih (hstep.unique hstep' ▸ hrest')

/-! ## The length of a chain -/

/-- A chain is at least so long if so many steps can be made. -/
lemma le_chainLength_iff : (n : ℕ∞) ≤ t.chainLength type ↔ ∃ last, t.Passes type n last := by
  refine ⟨fun h => ?_, fun h => le_iSup₂_of_le n h le_rfl⟩
  by_contra hnone
  cases n with
  | zero => exact hnone ⟨type, .here type⟩
  | succ n =>
    -- no more than `n` typedefs can be passed, since one could stop after `n + 1` of them
    have hle : t.chainLength type ≤ n := by
      refine iSup₂_le fun k ⟨last, hpass⟩ => ?_
      exact Nat.cast_le.2 (Nat.le_of_not_lt fun hlt => hnone (hpass.exists_of_le hlt))
    have hmore : ((n + 1 : Nat) : ℕ∞) ≤ n := h.trans hle
    exact absurd (Nat.cast_le.1 hmore) (Nat.not_succ_le_self n)

/-- A chain has a length if it ends. -/
lemma chainLength_eq_iff :
    t.chainLength type = n ↔ ∃ last, t.Passes type n last ∧ t.IsFinal last := by
  have hmore : ((n + 1 : Nat) : ℕ∞) ≤ t.chainLength type ↔
      ∃ last, t.Passes type n last ∧ ¬ t.IsFinal last := by
    rw [le_chainLength_iff]
    simp only [passes_add_iff, passes_one_iff, IsFinal, not_forall, not_not]
    exact ⟨fun ⟨next, last, hpass, hstep⟩ => ⟨last, hpass, next, hstep⟩,
      fun ⟨last, hpass, next, hstep⟩ => ⟨next, last, hpass, hstep⟩⟩
  rw [le_antisymm_iff, and_comm, le_chainLength_iff, ← not_lt, ← ENat.add_one_le_iff (by simp)]
  rw [show (n : ℕ∞) + 1 = ((n + 1 : Nat) : ℕ∞) from rfl, hmore]
  constructor
  · rintro ⟨⟨last, hpass⟩, hfinal⟩
    exact ⟨last, hpass, by_contra fun h => hfinal ⟨last, hpass, h⟩⟩
  · rintro ⟨last, hpass, hfinal⟩
    exact ⟨⟨last, hpass⟩, fun ⟨last', hpass', hmore⟩ => hmore (hpass.unique hpass' ▸ hfinal)⟩

/-- A chain that comes back to where it was can go on for ever. -/
lemma Passes.round (h : t.Passes mid (n + 1) mid) (k : Nat) : ∃ last, t.Passes mid k last := by
  have hrounds (c : Nat) : t.Passes mid (c * (n + 1)) mid := by
    induction c with
    | zero => simp
    | succ c ih => exact Nat.succ_mul c (n + 1) ▸ passes_add_iff.2 ⟨mid, ih, h⟩
  exact (hrounds k).exists_of_le (Nat.le_mul_of_pos_right k n.succ_pos)

/-- A chain without an end comes back to a type on it, since there are only so many typedefs. -/
theorem chainLength_eq_top_iff : t.chainLength type = ⊤ ↔
    ∃ m mid n, t.Passes type m mid ∧ t.Passes mid (n + 1) mid := by
  constructor
  · intro htop
    have hpass (n : Nat) : ∃ last, t.Passes type n last := le_chainLength_iff.1 (htop ▸ le_top)
    choose reached hreached using hpass
    have hid (n : Nat) : ∃ id : Fin t.size, (t.decl id).payload = .typedef (reached (n + 1)) := by
      obtain ⟨mid, -, hstep⟩ := passes_add_iff.1 (hreached (n + 1))
      obtain ⟨_, id, -, hid, -, hpayload⟩ := passes_one_iff.1 hstep
      exact ⟨⟨id, hid⟩, hpayload⟩
    choose passed hpassed using hid
    obtain ⟨i, j, hne, hsame⟩ := Finite.exists_ne_map_eq_of_infinite passed
    wlog hlt : i < j generalizing i j with hswap
    · exact hswap j i hne.symm hsame.symm (by omega)
    have hback : reached (j + 1) = reached (i + 1) :=
      Payload.typedef.inj ((hpassed j).symm.trans (hsame ▸ hpassed i))
    obtain ⟨k, rfl⟩ := Nat.exists_eq_add_of_lt hlt
    have hround : t.Passes type (i + 1 + (k + 1)) (reached (i + 1)) := by
      rw [← hback, show i + 1 + (k + 1) = i + k + 1 + 1 by omega]
      exact hreached _
    obtain ⟨mid, hmid, hround⟩ := passes_add_iff.1 hround
    obtain rfl := hmid.unique (hreached (i + 1))
    exact ⟨i + 1, _, k, hmid, hround⟩
  · rintro ⟨m, mid, n, hpass, hround⟩
    refine ENat.eq_top_iff_forall_ge.2 fun k => le_chainLength_iff.2 ?_
    obtain ⟨last, hlast⟩ := hround.round k
    exact (passes_add_iff.2 ⟨mid, hpass, hlast⟩).exists_of_le (Nat.le_add_left k m)

/-! ## Following a chain -/

/-- Either all steps are used up, or the chain has ended with fewer. -/
theorem follow_cases (t : Tree) (steps : Nat) (type : QualType) :
    ((t.follow steps type).2 = true ∧ t.Passes type steps (t.follow steps type).1) ∨
      ((t.follow steps type).2 = false ∧
        ∃ n < steps, t.Passes type n (t.follow steps type).1 ∧
          t.IsFinal (t.follow steps type).1) := by
  induction steps generalizing type with
  | zero => exact .inl ⟨rfl, .here type⟩
  | succ steps ih =>
    rw [follow]
    cases htarget : t.typedefTarget? type with
    | none => exact .inr ⟨rfl, 0, steps.succ_pos, .here type, isFinal_iff.2 htarget⟩
    | some next =>
      have hstep := standsFor_iff.2 htarget
      rcases ih next with ⟨hall, hpass⟩ | ⟨hfewer, n, hn, hpass, hfinal⟩
      · exact .inl ⟨hall, .through hstep hpass⟩
      · exact .inr ⟨hfewer, n + 1, Nat.succ_lt_succ hn, .through hstep hpass, hfinal⟩

/-- The limit is reported if it is reached, whether or not the chain ends there. -/
lemma follow_snd_iff : (t.follow steps type).2 = true ↔ steps ≤ t.chainLength type := by
  rcases t.follow_cases steps type with ⟨hall, hpass⟩ | ⟨hfewer, n, hn, hpass, hfinal⟩
  · exact iff_of_true hall (le_chainLength_iff.2 ⟨_, hpass⟩)
  · rw [hfewer, chainLength_eq_iff.2 ⟨_, hpass, hfinal⟩, Nat.cast_le]
    simpa using hn

/-- What is written about a chain that is too deep. -/
def tooDeep (type : QualType) : Message :=
  ⟨.warn, "Typedef chain from \"" ++ type.display ++ "\" is too deep, treating it as cyclic"⟩

lemma value_behindTypedefs (t : Tree) (type : QualType) :
    (t.behindTypedefs type).value = (t.follow typedefLimit type).1 := by
  unfold behindTypedefs
  split <;> simp [*]

lemma log_behindTypedefs (t : Tree) (type : QualType) :
    (t.behindTypedefs type).log =
      if (t.follow typedefLimit type).2 then [tooDeep type] else [] := by
  unfold behindTypedefs
  split
  · simp [*]
  · simp only [*, if_true]
    rfl

/-- A chain within the limit is followed to its end, and nothing is written.  Any other is followed
as far as the limit goes, and is reported once. -/
structure ResolvesRightly (t : Tree) (type : QualType) : Prop where
  within : t.chainLength type ≤ typedefLimit →
    (∃ n, t.Passes type n (t.behindTypedefs type).value) ∧
      t.IsFinal (t.behindTypedefs type).value ∧ (t.behindTypedefs type).log = []
  beyond : typedefLimit < t.chainLength type →
    t.Passes type typedefLimit (t.behindTypedefs type).value ∧
      (t.behindTypedefs type).log = [tooDeep type]

lemma passes_behindTypedefs (t : Tree) (type : QualType) :
    ∃ n : Nat, n = min (t.chainLength type) typedefLimit ∧
      t.Passes type n (t.behindTypedefs type).value := by
  rw [value_behindTypedefs]
  rcases t.follow_cases typedefLimit type with ⟨-, hpass⟩ | ⟨-, n, hn, hpass, hfinal⟩
  · exact ⟨typedefLimit, (min_eq_right (le_chainLength_iff.2 ⟨_, hpass⟩)).symm, hpass⟩
  · rw [chainLength_eq_iff.2 ⟨_, hpass, hfinal⟩]
    exact ⟨n, (min_eq_left (Nat.cast_le.2 hn.le)).symm, hpass⟩

/-- The type at the end of a chain or, if it is longer than the limit, after as many steps is always
found.  A chain is reported, once, if it is as long as the limit or longer.  So a type is resolved
as it should be exactly if its chain is not just as long as the limit. -/
theorem resolvesRightly_iff (t : Tree) (type : QualType) :
    (∃ n : Nat, n = min (t.chainLength type) typedefLimit ∧
      t.Passes type n (t.behindTypedefs type).value) ∧
    (t.IsFinal (t.behindTypedefs type).value ↔ t.chainLength type ≤ typedefLimit) ∧
    (t.behindTypedefs type).log =
      (if typedefLimit ≤ t.chainLength type then [tooDeep type] else []) ∧
    (t.ResolvesRightly type ↔ t.chainLength type ≠ typedefLimit) := by
  obtain ⟨n, hn, hpass⟩ := t.passes_behindTypedefs type
  have hfinal : t.IsFinal (t.behindTypedefs type).value ↔ t.chainLength type ≤ typedefLimit := by
    constructor
    · intro hfinal
      rw [← min_eq_left_iff, ← hn]
      exact (chainLength_eq_iff.2 ⟨_, hpass, hfinal⟩).symm
    · intro hle
      rw [min_eq_left hle, eq_comm, chainLength_eq_iff] at hn
      obtain ⟨last, hlast, hfinal⟩ := hn
      exact hpass.unique hlast ▸ hfinal
  have hlog : (t.behindTypedefs type).log =
      if typedefLimit ≤ t.chainLength type then [tooDeep type] else [] := by
    rw [log_behindTypedefs]
    exact if_congr follow_snd_iff rfl rfl
  refine ⟨⟨n, hn, hpass⟩, hfinal, hlog, fun h heq => ?_, fun hne => ⟨fun hle => ?_, fun hlt => ?_⟩⟩
  · have hnone := (h.within heq.le).2.2
    rw [hlog, if_pos heq.ge] at hnone
    exact absurd hnone (List.cons_ne_nil _ _)
  · refine ⟨⟨n, hpass⟩, hfinal.2 hle, ?_⟩
    rw [hlog, if_neg fun hge => hne (le_antisymm hle hge)]
  · rw [min_eq_right hlt.le, Nat.cast_inj] at hn
    exact ⟨hn ▸ hpass, by rw [hlog, if_pos hlt.le]⟩

/-! ## A chain as long as the limit -/

/-- The type under the name of one of the typedefs of `aliasTree`. -/
def aliasType (k : Nat) : QualType :=
  .named ("T" ++ Text.Decimal.text k) false (.declared ⟨"T" ++ Text.Decimal.text k⟩)

/-- Typedefs that each name the next one.  The last one names `int`. -/
def aliasTree : Tree :=
  Tree.empty.changed (.insert none (.new ⟨"tu:a.h"⟩ "a.h" .translationUnit) ::
    (List.range typedefLimit).map fun k => .insert (some 0)
      (.new ⟨"T" ++ Text.Decimal.text k⟩ ("T" ++ Text.Decimal.text k)
        (.typedef (if k + 1 = typedefLimit then .builtin "int" else aliasType (k + 1)))))

/-- The chain from the first typedef ends within the limit and is reported as too deep. -/
theorem not_resolvesRightly_aliasTree :
    aliasTree.chainLength (aliasType 0) = typedefLimit ∧
      (aliasTree.behindTypedefs (aliasType 0)).value = .builtin "int" ∧
      (aliasTree.behindTypedefs (aliasType 0)).log = [tooDeep (aliasType 0)] ∧
      ¬ aliasTree.ResolvesRightly (aliasType 0) := by
  have hfollow : aliasTree.follow typedefLimit (aliasType 0) = (.builtin "int", true) := by
    decide +kernel
  have hvalue : (aliasTree.behindTypedefs (aliasType 0)).value = .builtin "int" := by
    rw [value_behindTypedefs, hfollow]
  have hlog : (aliasTree.behindTypedefs (aliasType 0)).log = [tooDeep (aliasType 0)] := by
    rw [log_behindTypedefs, hfollow]
    rfl
  have hfinal : aliasTree.IsFinal (.builtin "int") := by
    rintro next ⟨usr, id, hnamed, -⟩
    simp [QualType.builtin, QualType.declared?] at hnamed
  have hlength : aliasTree.chainLength (aliasType 0) = typedefLimit := by
    refine chainLength_eq_iff.2 ⟨.builtin "int", ?_, hfinal⟩
    rcases aliasTree.follow_cases typedefLimit (aliasType 0) with ⟨-, hpass⟩ | ⟨hfewer, -⟩
    · rwa [hfollow] at hpass
    · simp [hfollow] at hfewer
  refine ⟨hlength, hvalue, hlog, fun h => ?_⟩
  have hnone := (h.within hlength.le).2.2
  rw [hlog] at hnone
  exact absurd hnone (List.cons_ne_nil _ _)

end Bindery.Tree
