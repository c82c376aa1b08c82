import Bindery.Proofs.Pass.TrailingDefaults

/-!
# Every method has the default values it inherits

The bases of a class are searched depth first; the classes found are those that can be reached at
all (`mem_ancestry`, `forall_mem_ancestry`).  Hence overriding is transitive: what an overridden
method overrides is overridden too (`overridden_trans`).

That is why one sweep is enough, whatever the order in which it meets the methods: a default value
that a method takes over gives no method above it or below it more to inherit than it had before
(`InheritsAt.of_inheritDefaultsOf`).  After the pass no method that is not kept out lacks a default
value that it could take over (`inherited_inheritDefaults`).  Dropping unusable default values does
not bring any up again (`Inherited.dropDefaults`), and taking default values over leaves none that
is unusable (`Trimmed.inheritDefaults`).
-/

namespace Bindery

/-! ## Lists of default values -/

/-- The default values put together from those of a method and those it inherits, by position. -/
def completedDefaults (own : List (Option String)) (inherited : Nat → Option String) :
    List (Option String) :=
  mergedDefaults (own.mapIdx fun i value => (value, inherited i))

/-- Every parameter has a default value, be it inherited. -/
def AllDefault (own : List (Option String)) (inherited : Nat → Option String) : Prop :=
  ∀ i < own.length, own[i]?.join.isSome = true ∨ (inherited i).isSome = true

section Lists

variable {own : List (Option String)} {inherited inherited' : Nat → Option String}

lemma allDefault_cons_iff {value : Option String} :
    AllDefault (value :: own) inherited ↔
      (value.isSome = true ∨ (inherited 0).isSome = true) ∧
        AllDefault own fun i => inherited (i + 1) := by
  simp only [AllDefault, List.length_cons]
  constructor
  · intro h
    exact ⟨by simpa using h 0 (by omega), fun i hi => by simpa using h (i + 1) (by omega)⟩
  · rintro ⟨hhead, htail⟩ i hi
    cases i with
    | zero => simpa using hhead
    | succ i => simpa using htail i (by omega)

instance : Decidable (AllDefault own inherited) := inferInstanceAs (Decidable (∀ i < _, _))

lemma mergedDefaults_cons (own inherited : Option String)
    (rest : List (Option String × Option String)) :
    mergedDefaults ((own, inherited) :: rest) =
      own.or (if rest.all fun pair => pair.1.isSome || pair.2.isSome then inherited else none) ::
        mergedDefaults rest := rfl

/-- The first parameter takes its inherited value if it has none and all behind it are optional. -/
lemma completedDefaults_cons (value : Option String) :
    completedDefaults (value :: own) inherited =
      value.or (if AllDefault own (fun i => inherited (i + 1)) then inherited 0 else none) ::
        completedDefaults own fun i => inherited (i + 1) := by
  have hall : (own.mapIdx fun i value => (value, inherited (i + 1))).all
      (fun pair => pair.1.isSome || pair.2.isSome) = true ↔
      AllDefault own fun i => inherited (i + 1) := by
    rw [List.all_eq_true]
    constructor
    · intro h i hi
      rw [List.getElem?_eq_getElem hi, Option.join_some, ← Bool.or_eq_true]
      exact h _ (List.mem_mapIdx.2 ⟨i, hi, rfl⟩)
    · intro h pair hpair
      obtain ⟨i, hi, rfl⟩ := List.mem_mapIdx.1 hpair
      have hcovered := h i hi
      rwa [List.getElem?_eq_getElem hi, Option.join_some, ← Bool.or_eq_true] at hcovered
  simp only [completedDefaults, List.mapIdx_cons, mergedDefaults_cons, hall]

@[simp]
lemma length_completedDefaults : (completedDefaults own inherited).length = own.length := by
  induction own generalizing inherited with
  | nil => rfl
  | cons value own ih => simp [completedDefaults_cons, ih]

/-- Completed default values are own or inherited ones. -/
lemma isSome_of_completedDefaults {i : Nat}
    (h : (completedDefaults own inherited)[i]?.join.isSome = true) :
    own[i]?.join.isSome = true ∨ (inherited i).isSome = true := by
  induction own generalizing inherited i with
  | nil => exact .inl h
  | cons value own ih =>
    rw [completedDefaults_cons] at h
    cases i with
    | zero =>
      cases value with
      | some v => exact .inl rfl
      | none =>
        refine .inr ?_
        simp only [List.getElem?_cons_zero, Option.join_some, Option.none_or] at h
        split at h
        · exact h
        · simp at h
    | succ i => exact ih h

/-- Having a value for each parameter carries over to lists that have values in more places. -/
lemma AllDefault.mono {own' : List (Option String)} (h : AllDefault own' inherited')
    (hlength : own'.length = own.length)
    (hle : ∀ i, own'[i]?.join.isSome = true ∨ (inherited' i).isSome = true →
      own[i]?.join.isSome = true ∨ (inherited i).isSome = true) : AllDefault own inherited :=
  fun i hi => hle i (h i (hlength ▸ hi))

/-- Completing fills every gap if each of them can be filled. -/
lemma all_completedDefaults (h : AllDefault own inherited) :
    (completedDefaults own inherited).all (·.isSome) = true := by
  induction own generalizing inherited with
  | nil => rfl
  | cons value own ih =>
    rw [allDefault_cons_iff] at h
    rw [completedDefaults_cons, List.all_cons, ih h.2, if_pos h.2, Bool.and_true]
    cases value with
    | some v => rfl
    | none => simpa using h.1

lemma allDefault_of_all (h : own.all (·.isSome) = true) : AllDefault own inherited := by
  intro i hi
  refine .inl ?_
  rw [List.getElem?_eq_getElem hi]
  exact List.all_eq_true.1 h _ (List.getElem_mem hi)

/-- Where every parameter has a value of its own none is inherited. -/
lemma completedDefaults_of_all (h : own.all (·.isSome) = true) :
    completedDefaults own inherited = own := by
  induction own generalizing inherited with
  | nil => rfl
  | cons value own ih =>
    rw [List.all_cons, Bool.and_eq_true] at h
    obtain ⟨v, rfl⟩ := Option.isSome_iff_exists.1 h.1
    rw [completedDefaults_cons, ih h.2, Option.some_or]

/-- Nothing changes if nothing changes behind the first parameter, and it has a value, or none to
inherit, or one it could not use. -/
lemma completedDefaults_cons_eq_iff {value : Option String} :
    completedDefaults (value :: own) inherited = value :: own ↔
      (value = none → AllDefault own (fun i => inherited (i + 1)) → inherited 0 = none) ∧
        completedDefaults own (fun i => inherited (i + 1)) = own := by
  rw [completedDefaults_cons, List.cons.injEq]
  refine and_congr_left' ?_
  cases value with
  | some v => simp
  | none => split <;> simp_all

/-- What is complete stays so with less to inherit. -/
lemma completedDefaults_eq_of_le (h : completedDefaults own inherited = own)
    (hle : ∀ i, (inherited' i).isSome = true → (inherited i).isSome = true) :
    completedDefaults own inherited' = own := by
  induction own generalizing inherited inherited' with
  | nil => rfl
  | cons value own ih =>
    rw [completedDefaults_cons_eq_iff] at h ⊢
    refine ⟨fun hnone hall => ?_, ih h.2 fun i => hle (i + 1)⟩
    have hzero := h.1 hnone (hall.mono rfl fun i => Or.imp_right (hle (i + 1)))
    cases hi : inherited' 0 with
    | none => rfl
    | some v =>
      have := hle 0 (by rw [hi]; rfl)
      rw [hzero] at this
      exact absurd this (by simp)

/-- An inherited value that could not be used the first time cannot be used the second time either.
-/
lemma completedDefaults_completedDefaults :
    completedDefaults (completedDefaults own inherited) inherited =
      completedDefaults own inherited := by
  induction own generalizing inherited with
  | nil => rfl
  | cons value own ih =>
    rw [completedDefaults_cons, completedDefaults_cons_eq_iff]
    refine ⟨fun hnone hall => ?_, ih⟩
    have hbefore : AllDefault own fun i => inherited (i + 1) :=
      hall.mono (by simp) fun i => Or.rec isSome_of_completedDefaults .inr
    rw [if_pos hbefore] at hnone
    cases value with
    | some v => exact absurd hnone (by simp)
    | none => exact hnone

lemma completedDefaults_trailingDefaults (h : completedDefaults own inherited = own) :
    completedDefaults (trailingDefaults own) inherited = trailingDefaults own := by
  induction own generalizing inherited with
  | nil => rfl
  | cons value own ih =>
    rw [completedDefaults_cons_eq_iff] at h
    rw [trailingDefaults, completedDefaults_cons_eq_iff]
    refine ⟨fun hnone hall => ?_, ih h.2⟩
    -- With all later parameters covered none of them lacks a default value of its own, so the
    -- value at hand has not been dropped.
    have hbefore : AllDefault own fun i => inherited (i + 1) :=
      hall.mono (by simp) fun i => Or.imp_left isSome_of_trailingDefaults
    have hown : own.all (·.isSome) = true := by
      rw [← h.2]
      exact all_completedDefaults hbefore
    rw [if_pos hown] at hnone
    exact h.1 hnone hbefore

lemma trailingDefaults_completedDefaults (h : trailingDefaults own = own) :
    trailingDefaults (completedDefaults own inherited) = completedDefaults own inherited := by
  induction own generalizing inherited with
  | nil => rfl
  | cons value own ih =>
    rw [trailingDefaults_cons_eq_iff] at h
    rw [completedDefaults_cons, trailingDefaults_cons_eq_iff]
    refine ⟨fun hsome => all_completedDefaults ?_, ih h.2⟩
    cases value with
    | some v => exact allDefault_of_all (h.1 rfl)
    | none =>
      by_contra hnot
      rw [if_neg hnot] at hsome
      exact absurd hsome (by simp)

end Lists

namespace Tree

variable {t u : Tree} {id : Nat}

/-! ## Base classes -/

/-- A set of declarations that holds the classes among the bases of what it holds. -/
def HoldsBases (t : Tree) (C : Nat → Prop) : Prop :=
  ∀ x, C x → ∀ usr ∈ (t.decl x).bases, ∀ y, t.class? usr = some y → C y

/-- A class that is found is in the tree. -/
lemma class?_lt_size {usr : Usr} {id : Nat} (h : t.class? usr = some id) : id < t.size :=
  (get?_eq_some (Option.filter_eq_some_iff.1 h).1).1

/-- The search stays within any set that holds the bases of its members. -/
theorem forall_mem_ancestry {C : Nat → Prop} (hC : t.HoldsBases C) {unseen : List Nat}
    {bases : List Usr} (hbases : ∀ usr ∈ bases, ∀ y, t.class? usr = some y → C y) :
    ∀ x ∈ t.ancestry unseen bases, C x := by
  induction unseen, bases using ancestry.induct t with
  | case1 unseen => simp [ancestry]
  | case2 unseen usr bases hnone ih =>
    rw [ancestry, hnone]
    exact ih (List.forall_mem_cons.1 hbases).2
  | case3 unseen usr bases id hclass hunseen ih =>
    obtain ⟨hfirst, hrest⟩ := List.forall_mem_cons.1 hbases
    have hid : C id := hfirst id hclass
    rw [ancestry, hclass]
    simp only [if_pos hunseen]
    refine List.forall_mem_cons.2 ⟨hid, ih fun usr husr => ?_⟩
    rcases List.mem_append.1 husr with husr | husr
    · exact hC id hid usr husr
    · exact hrest usr husr
  | case4 unseen usr bases id hclass hseen ih =>
    rw [ancestry, hclass]
    simp only [if_neg hseen]
    exact ih (List.forall_mem_cons.1 hbases).2

/-- The search finds every unseen class among the bases, and among the bases of what it finds. -/
theorem mem_ancestry (unseen : List Nat) (bases : List Usr) :
    (∀ usr ∈ bases, ∀ y, t.class? usr = some y → y ∈ unseen → y ∈ t.ancestry unseen bases) ∧
      ∀ x ∈ t.ancestry unseen bases, ∀ usr ∈ (t.decl x).bases, ∀ y, t.class? usr = some y →
        y ∈ unseen → y ∈ t.ancestry unseen bases := by
  induction unseen, bases using ancestry.induct t with
  | case1 unseen => simp [ancestry]
  | case2 unseen usr bases hnone ih =>
    rw [ancestry, hnone]
    refine ⟨List.forall_mem_cons.2 ⟨fun y hy => ?_, ih.1⟩, ih.2⟩
    rw [hnone] at hy
    exact absurd hy (by simp)
  | case3 unseen usr bases id hclass hunseen ih =>
    rw [ancestry, hclass]
    simp only [if_pos hunseen]
    -- A class is the one just found, or it is among those that are unseen after it.
    have hlater : ∀ y ∈ unseen, (y ∈ unseen.erase id → y ∈ t.ancestry (unseen.erase id)
        ((t.decl id).bases ++ bases)) → y ∈ id :: t.ancestry (unseen.erase id)
        ((t.decl id).bases ++ bases) := by
      intro y hy hmem
      by_cases hyid : y = id
      · rw [hyid]
        exact List.mem_cons_self
      · exact List.mem_cons_of_mem _ (hmem ((List.mem_erase_of_ne hyid).2 hy))
    refine ⟨List.forall_mem_cons.2 ⟨fun y hy _ => ?_, fun other hother y hy hmem => ?_⟩,
      List.forall_mem_cons.2
        ⟨fun other hother y hy hmem => ?_, fun x hx other hother y hy hmem => ?_⟩⟩
    · rw [hclass] at hy
      cases hy
      exact List.mem_cons_self
    · exact hlater y hmem (ih.1 other (List.mem_append_right _ hother) y hy)
    · exact hlater y hmem (ih.1 other (List.mem_append_left _ hother) y hy)
    · exact hlater y hmem (ih.2 x hx other hother y hy)
  | case4 unseen usr bases id hclass hseen ih =>
    rw [ancestry, hclass]
    simp only [if_neg hseen]
    refine ⟨List.forall_mem_cons.2 ⟨fun y hy hmem => ?_, ih.1⟩, ih.2⟩
    rw [hclass] at hy
    cases hy
    exact absurd hmem hseen

lemma holdsBases_ancestry (bases : List Usr) : t.HoldsBases (· ∈ t.ancestry t.ids bases) :=
  fun x hx usr husr y hy =>
    (mem_ancestry t.ids bases).2 x hx usr husr y hy (mem_ids_iff.2 (class?_lt_size hy))

/-- What can be reached from the bases of a class that is found is found itself. -/
lemma mem_ancestry_trans {x y : Nat} {bases : List Usr} (hx : x ∈ t.ancestry t.ids bases)
    (hy : y ∈ t.ancestry t.ids (t.decl x).bases) : y ∈ t.ancestry t.ids bases :=
  forall_mem_ancestry (holdsBases_ancestry bases) (holdsBases_ancestry bases x hx) y hy

/-- The base classes are part of the shape, so the search takes the same way. -/
lemma ancestry_of_develops {free : List Field} (hdev : t.Develops free u) (unseen : List Nat)
    (bases : List Usr) : u.ancestry unseen bases = t.ancestry unseen bases := by
  induction unseen, bases using ancestry.induct t with
  | case1 unseen => simp [ancestry]
  | case2 unseen usr bases hnone ih =>
    rw [ancestry, ancestry, hdev.class?_eq, hnone]
    exact ih
  | case3 unseen usr bases id hclass hunseen ih =>
    have hid := class?_lt_size hclass
    rw [ancestry, ancestry, hdev.class?_eq, hclass]
    simp only [if_pos hunseen, hdev.reads Decl.bases Decl.bases_shape hid, ih]
  | case4 unseen usr bases id hclass hseen ih =>
    rw [ancestry, ancestry, hdev.class?_eq, hclass]
    simp only [if_neg hseen, ih]

/-! ## Overriding -/

lemma mem_overridden_iff {m : Nat} :
    m ∈ t.overridden id ↔ ∃ own owner base, (t.decl id).method? = some own ∧
      own.isStatic = false ∧ t.parent? id = some owner ∧
      base ∈ t.ancestry t.ids (t.decl owner).bases ∧ t.parent? m = some base ∧
      (t.decl m).kind = .method ∧ t.overrides id m = true := by
  unfold overridden
  cases hown : (t.decl id).method? with
  | none => simp
  | some own =>
    cases howner : t.parent? id with
    | none => simp
    | some owner =>
      cases hstatic : own.isStatic with
      | true => simp [hstatic]
      | false => simp [hstatic, mem_childrenOfKind_iff, and_assoc]

/-- What overriding means, without the search: names and parameter types agree, and the other one is
virtual. -/
lemma overrides_iff {m : Nat} :
    t.overrides id m = true ↔ ∃ own other, (t.decl id).method? = some own ∧
      (t.decl m).method? = some other ∧ other.isVirtual = true ∧
      (t.decl m).headerName = (t.decl id).headerName ∧
      other.signature.parameterTypes = own.signature.parameterTypes := by
  unfold overrides
  cases (t.decl id).method? with
  | none => simp
  | some own =>
    cases (t.decl m).method? with
    | none => simp
    | some other => simp [Signature.hasSameParameters, and_assoc]

/-- What a direct base declares can be overridden. -/
lemma mem_overridden_of_base {m owner base : Nat} {usr : Usr}
    (hmethod : (t.decl id).method?.any (fun own => !own.isStatic) = true)
    (howner : t.parent? id = some owner) (husr : usr ∈ (t.decl owner).bases)
    (hclass : t.class? usr = some base) (hparent : t.parent? m = some base)
    (hkind : (t.decl m).kind = .method) (hover : t.overrides id m = true) :
    m ∈ t.overridden id := by
  obtain ⟨own, hown, hstatic⟩ := (Option.any_eq_true _ _).1 hmethod
  rw [Bool.not_eq_true'] at hstatic
  have hbase : base ∈ t.ancestry t.ids (t.decl owner).bases :=
    (mem_ancestry _ _).1 usr husr base hclass (mem_ids_iff.2 (class?_lt_size hclass))
  exact mem_overridden_iff.2 ⟨own, owner, base, hown, hstatic, howner, hbase, hparent, hkind, hover⟩

/-- What an overridden method overrides is overridden too. -/
theorem overridden_trans {j m : Nat} (hid : id ∈ t.overridden j) (hm : m ∈ t.overridden id) :
    m ∈ t.overridden j := by
  obtain ⟨ownj, ownerj, base, hmethodj, hstatic, hownerj, hbase, hparent, -, hoverj⟩ :=
    mem_overridden_iff.1 hid
  obtain ⟨own, owner, base', hmethod, -, howner, hbase', hparent', hkind, hover⟩ :=
    mem_overridden_iff.1 hm
  obtain rfl : base = owner := Option.some.inj (hparent.symm.trans howner)
  refine mem_overridden_iff.2 ⟨ownj, ownerj, base', hmethodj, hstatic, hownerj,
    mem_ancestry_trans hbase hbase', hparent', hkind, overrides_iff.2 ?_⟩
  obtain ⟨ownj', own', hmethodj', hmethod', -, hname, hparameters⟩ := overrides_iff.1 hoverj
  obtain ⟨own'', other, hmethod'', hother, hvirtual, hname', hparameters'⟩ := overrides_iff.1 hover
  obtain rfl : own'' = own' := Option.some.inj (hmethod''.symm.trans hmethod')
  exact ⟨ownj', other, hmethodj', hother, hvirtual, hname'.trans hname,
    hparameters'.trans hparameters⟩

/-- What one method is to another one does not change. -/
lemma method?_of_develops {free : List Field} (hdev : t.Develops free u) (hid : id < t.size)
    {m : Method} (h : (u.decl id).method? = some m) :
    ∃ m', (t.decl id).method? = some m' ∧ m'.isStatic = m.isStatic ∧ m'.isVirtual = m.isVirtual ∧
      m'.signature.parameterTypes = m.signature.parameterTypes := by
  have hsame := hdev.reads
    (fun d => d.method?.map fun m => (m.isStatic, m.isVirtual, m.signature.parameterTypes))
    (fun d => by simp [Decl.method?_shape, Function.comp_def]) hid
  simp only [h, Option.map_some] at hsame
  obtain ⟨m', hm', heq⟩ := Option.map_eq_some_iff.1 hsame.symm
  simp only [Prod.mk.injEq] at heq
  exact ⟨m', hm', heq⟩

lemma overrides_of_develops {free : List Field} (hdev : t.Develops free u) {m : Nat}
    (hid : id < t.size) (hm : m < t.size) (h : u.overrides id m = true) :
    t.overrides id m = true := by
  obtain ⟨own, other, hown, hother, hvirtual, hname, hparameters⟩ := overrides_iff.1 h
  obtain ⟨own', hown', -, -, hsame⟩ := method?_of_develops hdev hid hown
  obtain ⟨other', hother', -, hsame'', hsame'⟩ := method?_of_develops hdev hm hother
  rw [hdev.reads Decl.headerName Decl.headerName_shape hm,
    hdev.reads Decl.headerName Decl.headerName_shape hid] at hname
  exact overrides_iff.2 ⟨own', other', hown', hother', hsame''.trans hvirtual, hname,
    hsame'.trans (hparameters.trans hsame.symm)⟩

/-- As long as nothing is added a method overrides nothing new. -/
lemma mem_overridden_of_develops {free : List Field} (hdev : t.Develops free u)
    (hsize : u.size = t.size) {m : Nat} (h : m ∈ u.overridden id) : m ∈ t.overridden id := by
  obtain ⟨own, owner, base, hown, hstatic, howner, hbase, hparent, hkind, hover⟩ :=
    mem_overridden_iff.1 h
  have hid : id < t.size := hsize ▸ lt_size_of_parent? howner
  have hm : m < t.size := hsize ▸ lt_size_of_parent? hparent
  obtain ⟨own', hown', hsame, -, -⟩ := method?_of_develops hdev hid hown
  rw [hdev.parent?_eq hid] at howner
  rw [hdev.parent?_eq hm] at hparent
  rw [ancestry_of_develops hdev, show u.ids = t.ids by rw [ids, ids, hsize],
    hdev.reads Decl.bases Decl.bases_shape (Nat.lt_trans (parent?_lt howner) hid)] at hbase
  rw [hdev.kind_eq hm] at hkind
  exact mem_overridden_iff.2 ⟨own', owner, base, hown', hsame.trans hstatic, howner, hbase, hparent,
    hkind, overrides_of_develops hdev hid hm hover⟩

/-! ## Inheriting -/

/-- The parameter at a position has a default value. -/
def HasDefault (t : Tree) (id i : Nat) : Prop :=
  ∃ s, (t.decl id).signature? = some s ∧ s.defaults[i]?.join.isSome = true

instance (t : Tree) (id i : Nat) : Decidable (t.HasDefault id i) :=
  decidable_of_iff ((t.decl id).signature?.any (·.defaults[i]?.join.isSome) = true) <| by
    rw [Option.any_eq_true]
    rfl

/-- A value can be inherited if any of the methods has one. -/
lemma isSome_inheritedDefault?_iff {methods : List Nat} {i : Nat} :
    (t.inheritedDefault? methods i).isSome = true ↔ ∃ m ∈ methods, t.HasDefault m i := by
  rw [inheritedDefault?, List.findSome?_isSome_iff]
  refine exists_congr fun m => and_congr_right' ?_
  rw [Option.isSome_bind, HasDefault]
  cases (t.decl m).signature? with
  | none => simp
  | some s =>
    have hread : s.defaultAt? i = s.defaults[i]?.join := by
      rw [Signature.defaultAt?, Signature.defaults, List.getElem?_map]
      cases s.arguments[i]? <;> rfl
    simp [hread]

lemma defaultsWithInherited_eq (t : Tree) (id : Nat) (s : Signature) :
    t.defaultsWithInherited id s =
      completedDefaults s.defaults (t.inheritedDefault? (t.overridden id)) := rfl

/-- A method has every default value that it could take over. -/
def InheritsAt (t : Tree) (id : Nat) : Prop :=
  ∀ s, (t.decl id).signature? = some s → t.defaultsWithInherited id s = s.defaults

/-- All methods that are not kept out have every default value that they could take over. -/
def Inherited (t : Tree) : Prop :=
  ∀ id, (t.decl id).kind = .method → (t.decl id).ignored = false → t.InheritsAt id

/-- A method whose own default values stay, or are trimmed, needs nothing more if it has nothing
new to inherit. -/
lemma InheritsAt.of_develops {free : List Field} (h : t.InheritsAt id)
    (hdev : t.Develops free u) (hsize : u.size = t.size)
    (hown : ∀ s, (u.decl id).signature? = some s → ∃ s', (t.decl id).signature? = some s' ∧
      (s.defaults = s'.defaults ∨ s.defaults = trailingDefaults s'.defaults))
    (hinherited : ∀ m ∈ t.overridden id, ∀ i, u.HasDefault m i →
      ∃ m' ∈ t.overridden id, t.HasDefault m' i) : u.InheritsAt id := by
  intro s hs
  obtain ⟨s', hs', hdefaults⟩ := hown s hs
  have hcomplete := h s' hs'
  rw [defaultsWithInherited_eq] at hcomplete ⊢
  have hle : ∀ i, (u.inheritedDefault? (u.overridden id) i).isSome = true →
      (t.inheritedDefault? (t.overridden id) i).isSome = true := by
    intro i hi
    obtain ⟨m, hm, hdefault⟩ := isSome_inheritedDefault?_iff.1 hi
    exact isSome_inheritedDefault?_iff.2
      (hinherited m (mem_overridden_of_develops hdev hsize hm) i hdefault)
  rcases hdefaults with hdefaults | hdefaults
  · rw [hdefaults]
    exact completedDefaults_eq_of_le hcomplete hle
  · rw [hdefaults]
    exact completedDefaults_eq_of_le (completedDefaults_trailingDefaults hcomplete) hle

/-- Default values that have not changed, read off the signatures. -/
lemma defaults_of_sameIn {a b : Decl} (h : Decl.SameIn .defaults a b) {s : Signature}
    (hs : b.signature? = some s) : ∃ s', a.signature? = some s' ∧ s.defaults = s'.defaults := by
  have hsame : a.defaults? = b.defaults? := h
  rw [Decl.defaults?, Decl.defaults?, hs] at hsame
  obtain ⟨s', hs', hdefaults⟩ := Option.map_eq_some_iff.1 hsame
  exact ⟨s', hs', hdefaults.symm⟩

/-- Whether there is a value depends on the default values alone. -/
lemma HasDefault.of_sameIn {i : Nat} (h : u.HasDefault id i)
    (hsame : Decl.SameIn .defaults (t.decl id) (u.decl id)) : t.HasDefault id i := by
  obtain ⟨s, hs, hdefault⟩ := h
  obtain ⟨s', hs', hdefaults⟩ := defaults_of_sameIn hsame hs
  exact ⟨s', hs', hdefaults ▸ hdefault⟩

lemma Inherited.of_develops {free : List Field} (h : t.Inherited) (hdev : t.Develops free u)
    (hsize : u.size = t.size) (hfree : .defaults ∉ free) : u.Inherited := by
  intro id hkind hign
  have hid : id < t.size := by
    rw [← hsize]
    exact lt_size_of_kind (by rw [hkind]; decide)
  have hbefore : t.InheritsAt id :=
    h id ((hdev.kind_eq hid).symm.trans hkind) (hdev.open_of hid hign)
  refine hbefore.of_develops hdev hsize (fun s hs => ?_) fun m hm i hdefault => ⟨m, hm, ?_⟩
  · obtain ⟨s', hs', hdefaults⟩ := defaults_of_sameIn (hdev.same .defaults hfree id hid) hs
    exact ⟨s', hs', .inl hdefaults⟩
  · have hmt : m < t.size := by
      obtain ⟨own, owner, base, -, -, -, -, hparent, -⟩ := mem_overridden_iff.1 hm
      exact lt_size_of_parent? hparent
    exact hdefault.of_sameIn (hdev.same .defaults hfree m hmt)

/-! ## The pass -/

/-- What has no signature is left alone; anything else gets the completed values. -/
lemma inheritDefaultsOf_cases (t : Tree) (id : Nat) :
    ((t.decl id).signature? = none ∧ t.inheritDefaultsOf id = .unchanged t) ∨
      ∃ s, (t.decl id).signature? = some s ∧
        (t.inheritDefaultsOf id).tree =
          t.edit id (.setDefaults (t.defaultsWithInherited id s)) ∧
        (t.inheritDefaultsOf id).changes =
          differences s.defaults (t.defaultsWithInherited id s) := by
  unfold inheritDefaultsOf
  cases hs : (t.decl id).signature? with
  | none => exact .inl ⟨rfl, by simp⟩
  | some s => exact .inr ⟨s, rfl, by simp, by simp⟩

lemma length_defaultsWithInherited (t : Tree) (id : Nat) (s : Signature) :
    (t.defaultsWithInherited id s).length = s.arguments.length := by
  rw [defaultsWithInherited_eq, length_completedDefaults, Signature.length_defaults]

lemma develops_inheritDefaultsOf (t : Tree) (id : Nat) :
    t.Develops [.defaults] (t.inheritDefaultsOf id).tree := by
  rcases inheritDefaultsOf_cases t id with ⟨-, h⟩ | ⟨s, hs, htree, -⟩
  · rw [h]
    exact .refl _ t
  · rw [htree]
    exact develops_setDefaults hs (length_defaultsWithInherited t id s)

lemma size_inheritDefaultsOf (t : Tree) (id : Nat) :
    (t.inheritDefaultsOf id).tree.size = t.size := by
  rcases inheritDefaultsOf_cases t id with ⟨-, h⟩ | ⟨s, hs, htree, -⟩
  · rw [h]
    rfl
  · rw [htree, size_edit]

/-- A default value taken over is one that could be inherited before. -/
lemma hasDefault_of_inheritDefaultsOf {m i : Nat}
    (h : (t.inheritDefaultsOf id).tree.HasDefault m i) :
    t.HasDefault m i ∨ m = id ∧ ∃ m' ∈ t.overridden m, t.HasDefault m' i := by
  rcases inheritDefaultsOf_cases t id with ⟨-, hsame⟩ | ⟨s, hs, htree, -⟩
  · rw [hsame] at h
    exact .inl h
  · rw [htree] at h
    by_cases hm : id = m
    · subst hm
      obtain ⟨s', hs', hdefault⟩ := h
      rw [signature?_setDefaults hs] at hs'
      cases hs'
      rw [Signature.defaults_withDefaults (length_defaultsWithInherited t id s),
        defaultsWithInherited_eq] at hdefault
      rcases isSome_of_completedDefaults hdefault with hown | hinherited
      · exact .inl ⟨s, hs, hown⟩
      · exact .inr ⟨rfl, isSome_inheritedDefault?_iff.1 hinherited⟩
    · refine .inl (h.of_sameIn ?_)
      rw [decl_edit_of_ne hm]
      exact .refl _ _

/-- A value that an overridden method has only now was inherited by it, from a method that is
overridden as well. -/
lemma exists_overridden_of_inheritDefaultsOf {j m i : Nat} (hm : m ∈ t.overridden j)
    (h : (t.inheritDefaultsOf id).tree.HasDefault m i) :
    ∃ m' ∈ t.overridden j, t.HasDefault m' i := by
  rcases hasDefault_of_inheritDefaultsOf h with h | ⟨-, m', hm', h⟩
  · exact ⟨m, hm, h⟩
  · exact ⟨m', overridden_trans hm hm', h⟩

lemma inheritsAt_inheritDefaultsOf (t : Tree) (id : Nat) :
    (t.inheritDefaultsOf id).tree.InheritsAt id := by
  have hdev := develops_inheritDefaultsOf t id
  have hsize := size_inheritDefaultsOf t id
  intro s' hs'
  rw [defaultsWithInherited_eq]
  have hle : ∀ i, ((t.inheritDefaultsOf id).tree.inheritedDefault?
      ((t.inheritDefaultsOf id).tree.overridden id) i).isSome = true →
      (t.inheritedDefault? (t.overridden id) i).isSome = true := by
    intro i hi
    obtain ⟨m, hm, hdefault⟩ := isSome_inheritedDefault?_iff.1 hi
    exact isSome_inheritedDefault?_iff.2 (exists_overridden_of_inheritDefaultsOf
      (mem_overridden_of_develops hdev hsize hm) hdefault)
  rcases inheritDefaultsOf_cases t id with ⟨hnone, hsame⟩ | ⟨s, hs, htree, -⟩
  · rw [hsame] at hs'
    rw [show (t.decl id).signature? = some s' from hs'] at hnone
    exact absurd hnone (by simp)
  · have hdefaults : s'.defaults = t.defaultsWithInherited id s := by
      rw [htree, signature?_setDefaults hs] at hs'
      cases hs'
      exact Signature.defaults_withDefaults (length_defaultsWithInherited t id s)
    rw [hdefaults, defaultsWithInherited_eq]
    exact completedDefaults_eq_of_le completedDefaults_completedDefaults hle

/-- A method that has nothing to take over has nothing to take over after another one has. -/
theorem InheritsAt.of_inheritDefaultsOf {j : Nat} (h : t.InheritsAt j) (id : Nat) :
    (t.inheritDefaultsOf id).tree.InheritsAt j := by
  by_cases hj : id = j
  · rw [← hj]
    exact inheritsAt_inheritDefaultsOf t id
  · refine h.of_develops (develops_inheritDefaultsOf t id) (size_inheritDefaultsOf t id)
      (fun s hs => ⟨s, ?_, .inl rfl⟩) fun m hm i => exists_overridden_of_inheritDefaultsOf hm
    rcases inheritDefaultsOf_cases t id with ⟨-, hsame⟩ | ⟨s', -, htree, -⟩
    · rwa [hsame] at hs
    · rwa [htree, decl_edit_of_ne hj] at hs

lemma develops_inheritDefaults (t : Tree) : t.Develops [.defaults] t.inheritDefaults.tree :=
  Progress.sweep_develops develops_inheritDefaultsOf _ t

lemma size_inheritDefaults (t : Tree) : t.inheritDefaults.tree.size = t.size :=
  Progress.size_sweep size_inheritDefaultsOf _ t

/-- The methods that the pass goes through. -/
def openMethods (t : Tree) : List Nat :=
  t.walk.filter fun id => (t.decl id).kind = .method && !(t.decl id).ignored

/-- The methods that the pass looks at. -/
lemma mem_openMethods_iff :
    id ∈ t.openMethods ↔ (t.decl id).kind = .method ∧ (t.decl id).ignored = false := by
  simp only [openMethods, List.mem_filter, mem_walk_iff, Bool.and_eq_true, decide_eq_true_eq,
    Bool.not_eq_true']
  exact ⟨fun h => h.2, fun h => ⟨lt_size_of_kind (by rw [h.1]; decide), h⟩⟩

lemma nodup_openMethods (t : Tree) : t.openMethods.Nodup := t.nodup_walk.filter _

theorem inherited_inheritDefaults (t : Tree) : t.inheritDefaults.tree.Inherited := by
  intro id hkind hign
  have hdev := develops_inheritDefaults t
  have hid : id < t.size := by
    rw [← size_inheritDefaults t]
    exact lt_size_of_kind (by rw [hkind]; decide)
  have hsame : (t.decl id).ignored = (t.inheritDefaults.tree.decl id).ignored :=
    hdev.same .ignored (by simp) id hid
  exact Progress.sweep_establishes inheritsAt_inheritDefaultsOf
    (fun t id i h => h.of_inheritDefaultsOf id) id
    (mem_openMethods_iff.2 ⟨(hdev.kind_eq hid).symm.trans hkind, hsame.trans hign⟩)

lemma Inherited.idle (h : t.Inherited) : t.inheritDefaults.Idle t := by
  refine Progress.sweep_idle fun id hid => ?_
  obtain ⟨hkind, hign⟩ := mem_openMethods_iff.1 hid
  rcases inheritDefaultsOf_cases t id with ⟨-, hsame⟩ | ⟨s, hs, htree, hchanges⟩
  · rw [hsame]
    exact Progress.idle_unchanged t
  · rw [h id hkind hign s hs] at htree hchanges
    exact ⟨htree.trans (edit_setDefaults_self hs), hchanges.trans (differences_self _)⟩

/-- If no value was taken over there was none to take over, and the tree is the same. -/
lemma inheritDefaultsOf_of_changes (h : (t.inheritDefaultsOf id).changes = 0) :
    t.InheritsAt id ∧ (t.inheritDefaultsOf id).tree = t := by
  rcases inheritDefaultsOf_cases t id with ⟨hnone, hsame⟩ | ⟨s, hs, htree, hchanges⟩
  · refine ⟨fun s hs => ?_, by rw [hsame]; rfl⟩
    rw [hnone] at hs
    exact absurd hs (by simp)
  · have hsame : s.defaults = t.defaultsWithInherited id s := by
      refine eq_of_differences ?_ (hchanges.symm.trans h)
      rw [length_defaultsWithInherited, Signature.length_defaults]
    refine ⟨fun s' hs' => ?_, ?_⟩
    · rw [hs] at hs'
      cases hs'
      exact hsame.symm
    · rw [htree, ← hsame]
      exact edit_setDefaults_self hs

/-- The pass counts no change exactly if there is nothing to take over. -/
lemma changes_inheritDefaults_eq_zero_iff : t.inheritDefaults.changes = 0 ↔ t.Inherited := by
  refine ⟨fun h id hkind hign => ?_, fun h => h.idle.2⟩
  have hstep := Progress.changes_of_sweep
    (fun t id hzero => (inheritDefaultsOf_of_changes hzero).2) h id
    (mem_openMethods_iff.2 ⟨hkind, hign⟩)
  exact (inheritDefaultsOf_of_changes hstep).1

/-! ## Inheriting and dropping -/

lemma HasDefault.of_dropDefaultsOf {m i : Nat} (h : (t.dropDefaultsOf id).tree.HasDefault m i) :
    t.HasDefault m i := by
  rcases dropDefaultsOf_cases t id with ⟨-, hsame⟩ | ⟨s, hs, htree, -⟩
  · rwa [hsame] at h
  · rw [htree] at h
    by_cases hm : id = m
    · subst hm
      obtain ⟨s', hs', hdefault⟩ := h
      rw [signature?_setDefaults hs] at hs'
      cases hs'
      rw [Signature.defaults_withDefaults (by simp)] at hdefault
      exact ⟨s, hs, isSome_of_trailingDefaults hdefault⟩
    · refine h.of_sameIn ?_
      rw [decl_edit_of_ne hm]
      exact .refl _ _

/-- Dropping values takes away what could be inherited, and adds nothing to it. -/
lemma InheritsAt.of_dropDefaultsOf {j : Nat} (h : t.InheritsAt j) (id : Nat) :
    (t.dropDefaultsOf id).tree.InheritsAt j := by
  refine h.of_develops (develops_dropDefaultsOf t id) (size_dropDefaultsOf t id) (fun s hs => ?_)
    fun m hm i hdefault => ⟨m, hm, hdefault.of_dropDefaultsOf⟩
  rcases dropDefaultsOf_cases t id with ⟨-, hsame⟩ | ⟨s', hs', htree, -⟩
  · rw [hsame] at hs
    exact ⟨s, hs, .inl rfl⟩
  · rw [htree] at hs
    by_cases hj : id = j
    · subst hj
      rw [signature?_setDefaults hs'] at hs
      cases hs
      exact ⟨s', hs', .inr (Signature.defaults_withDefaults (by simp))⟩
    · rw [decl_edit_of_ne hj] at hs
      exact ⟨s, hs, .inl rfl⟩

/-- Dropping default values brings up none to take over. -/
theorem Inherited.dropDefaults (h : t.Inherited) : t.dropDefaults.tree.Inherited := by
  intro id hkind hign
  have hdev := develops_dropDefaults t
  have hid : id < t.size := by
    rw [← size_dropDefaults t]
    exact lt_size_of_kind (by rw [hkind]; decide)
  have hsame : (t.decl id).ignored = (t.dropDefaults.tree.decl id).ignored :=
    hdev.same .ignored (by simp) id hid
  refine Progress.sweep_invariant (I := fun u => u.InheritsAt id)
    (fun i _ u hu => hu.of_dropDefaultsOf i) ?_
  exact h id ((hdev.kind_eq hid).symm.trans hkind) (hsame.trans hign)

lemma TrimmedAt.of_inheritDefaultsOf {j : Nat} (h : t.TrimmedAt j) (id : Nat) :
    (t.inheritDefaultsOf id).tree.TrimmedAt j := by
  intro s hs
  rcases inheritDefaultsOf_cases t id with ⟨-, hsame⟩ | ⟨s', hs', htree, -⟩
  · rw [hsame] at hs
    exact h s hs
  · rw [htree] at hs
    by_cases hj : id = j
    · subst hj
      rw [signature?_setDefaults hs'] at hs
      cases hs
      rw [Signature.defaults_withDefaults (length_defaultsWithInherited t id s'),
        defaultsWithInherited_eq]
      exact trailingDefaults_completedDefaults (h s' hs')
    · rw [decl_edit_of_ne hj] at hs
      exact h s hs

/-- Taking default values over brings up none to drop. -/
theorem Trimmed.inheritDefaults (h : t.Trimmed) : t.inheritDefaults.tree.Trimmed := by
  intro id hign s hs
  have hid : id < t.size := by
    rw [← size_inheritDefaults t]
    exact lt_size_of_signature? hs
  have hsame : (t.decl id).ignored = (t.inheritDefaults.tree.decl id).ignored :=
    (develops_inheritDefaults t).same .ignored (by simp) id hid
  exact Progress.sweep_invariant (I := fun u => u.TrimmedAt id)
    (fun i _ u hu => hu.of_inheritDefaultsOf i) (h id (hsame.trans hign)) s hs

end Tree

end Bindery
