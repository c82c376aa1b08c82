import Mathlib.Data.Nat.Bitwise
import Bindery.Proofs.Pass.FlagEnums

/-!
# Which values are flags

The test of an enumeration goes through its values once and keeps the bits of those it has passed.
What it comes to says nothing of bits or of an order (`isFlagSet_iff`): there is a value other than
zero, and all such values are different powers of two.  The link is what one value does to the bits:
it is passed if it is a power of two whose bit is free, and then the bit is taken
(`areFlags_cons_iff`).

The bits are kept in a number here.  A machine word would do, since no value has more than 63 bits
(`areFlagsInWord_eq`).

`classifyEnums_exact` puts this together with the pass: every enumeration is marked by that rule.
-/

namespace Bindery

namespace FlagEnum

variable {bits k : Nat} {v : Int} {vs : List Int}

/-! ## One value -/

lemma isSingleBit_iff {n : Nat} : isSingleBit n = true ↔ ∃ k, n = 2 ^ k := by
  unfold isSingleBit
  by_cases hn : n = 0
  · subst hn
    simpa using fun k => Nat.ne_of_lt (Nat.two_pow_pos k)
  · rw [Bool.and_eq_true, decide_eq_true_eq, decide_eq_true_eq, and_iff_right hn]
    exact Nat.and_sub_one_eq_zero_iff_isPowerOfTwo hn

lemma and_two_pow_eq_zero_iff : bits &&& 2 ^ k = 0 ↔ bits.testBit k = false := by
  rw [Nat.and_two_pow]
  cases bits.testBit k <;> simp

lemma testBit_or_two_pow_eq_false_iff {j : Nat} :
    (bits ||| 2 ^ k).testBit j = false ↔ bits.testBit j = false ∧ j ≠ k := by
  rw [Nat.testBit_or, Nat.testBit_two_pow, Bool.or_eq_false_iff, decide_eq_false_iff_not, ne_comm]

lemma or_two_pow_ne_zero (bits k : Nat) : bits ||| 2 ^ k ≠ 0 := fun h =>
  Nat.ne_of_gt (Nat.two_pow_pos k) (Nat.or_eq_zero_iff.1 h).2

lemma two_pow_inj {j : Nat} (h : (2 : Int) ^ j = 2 ^ k) : j = k :=
  Nat.pow_right_injective (Nat.le_refl 2) (by exact_mod_cast h)

/-- A value is passed if it is a power of two whose bit is free.  Then the bit is taken. -/
theorem areFlags_cons_iff (hv : v ≠ 0) :
    areFlags bits (v :: vs) = true ↔
      ∃ k, v = 2 ^ k ∧ bits.testBit k = false ∧ areFlags (bits ||| 2 ^ k) vs = true := by
  have htoNat (k : Nat) : ((2 : Int) ^ k).toNat = 2 ^ k := by norm_cast
  rw [areFlags, if_neg hv]
  simp only [Bool.and_eq_true, decide_eq_true_eq, and_assoc, isSingleBit_iff]
  constructor
  · rintro ⟨hpos, ⟨k, hk⟩, hfree, hrest⟩
    rw [hk] at hfree hrest
    refine ⟨k, ?_, and_two_pow_eq_zero_iff.1 hfree, hrest⟩
    rw [← Int.toNat_of_nonneg (Int.le_of_lt hpos), hk]
    norm_cast
  · rintro ⟨k, rfl, hfree, hrest⟩
    rw [htoNat]
    exact ⟨Int.pow_pos (by decide), ⟨k, rfl⟩, and_two_pow_eq_zero_iff.2 hfree, hrest⟩

/-! ## All values -/

/-- Values are passed if they are different powers of two whose bits are free. -/
lemma areFlags_iff (bits : Nat) (values : List Int) :
    areFlags bits values = true ↔
      (bits ≠ 0 ∨ ∃ v ∈ values, v ≠ 0) ∧
        (∀ v ∈ values, v ≠ 0 → ∃ k, v = 2 ^ k ∧ bits.testBit k = false) ∧
        (values.filter (· ≠ 0)).Nodup := by
  induction values generalizing bits with
  | nil => simp [areFlags]
  | cons v vs ih =>
    by_cases hv : v = 0
    · simp [areFlags, hv, ih]
    · have hkept : (v :: vs).filter (· ≠ 0) = v :: vs.filter (· ≠ 0) :=
        List.filter_cons_of_pos (by simpa using hv)
      rw [areFlags_cons_iff hv, hkept, List.nodup_cons, List.forall_mem_cons]
      simp only [ih, testBit_or_two_pow_eq_false_iff]
      constructor
      · rintro ⟨k, rfl, hfree, -, hvalues, hnodup⟩
        refine ⟨.inr ⟨_, List.mem_cons_self, hv⟩, ⟨fun _ => ⟨k, rfl, hfree⟩, fun w hw hne => ?_⟩,
          fun hmem => ?_, hnodup⟩
        · obtain ⟨j, rfl, hj, -⟩ := hvalues w hw hne
          exact ⟨j, rfl, hj⟩
        · obtain ⟨j, heq, -, hne⟩ := hvalues _ (List.mem_filter.1 hmem).1 hv
          exact hne (two_pow_inj heq).symm
      · rintro ⟨-, ⟨hfirst, hvalues⟩, hnew, hnodup⟩
        obtain ⟨k, rfl, hfree⟩ := hfirst hv
        refine ⟨k, rfl, hfree, .inl (or_two_pow_ne_zero bits k), fun w hw hne => ?_, hnodup⟩
        obtain ⟨j, rfl, hj⟩ := hvalues w hw hne
        refine ⟨j, rfl, hj, ?_⟩
        rintro rfl
        exact hnew (List.mem_filter.2 ⟨hw, decide_eq_true hne⟩)

/-! ## Enumerations -/

/-- The values of an enumeration other than zero, with repetitions. -/
def nonzeroValues (variants : List (String × Int64)) : List Int64 :=
  (variants.map (·.2)).filter (· ≠ 0)

lemma toInt_eq_zero_iff {value : Int64} : value.toInt = 0 ↔ value = 0 := by
  rw [← Int64.toInt_zero, Int64.toInt_inj]

lemma le_of_toInt_eq_two_pow {value : Int64} (h : value.toInt = 2 ^ k) : k ≤ 62 := by
  have hlt : (2 : Int) ^ k < 2 ^ 63 := h ▸ value.toInt_lt
  have hlt' : 2 ^ k < 2 ^ 63 := by exact_mod_cast hlt
  exact Nat.le_of_lt_succ ((Nat.pow_lt_pow_iff_right (by decide)).1 hlt')

lemma filter_map_toInt (values : List Int64) :
    (values.map Int64.toInt).filter (· ≠ 0) = (values.filter (· ≠ 0)).map Int64.toInt := by
  rw [List.filter_map]
  exact congrArg _ (List.filter_congr fun value _ => by simp [toInt_eq_zero_iff])

/-- The members of an enumeration are flags if there is a value other than zero, and all such values
are different powers of two. -/
theorem isFlagSet_iff (variants : List (String × Int64)) :
    isFlagSet variants = true ↔ nonzeroValues variants ≠ [] ∧
      (∀ value ∈ nonzeroValues variants, ∃ k ≤ 62, value.toInt = 2 ^ k) ∧
      (nonzeroValues variants).Nodup := by
  have hvalues : (variants.map fun variant => variant.2.toInt) =
      (variants.map (·.2)).map Int64.toInt := by
    rw [List.map_map]
    rfl
  rw [isFlagSet, hvalues, areFlags_iff, filter_map_toInt, nonzeroValues]
  generalize variants.map (·.2) = values
  refine and_congr ?_ (and_congr ?_ (List.nodup_map_iff fun _ _ => Int64.toInt_inj.1))
  · simp [toInt_eq_zero_iff, List.filter_eq_nil_iff]
  · simp only [List.forall_mem_map, List.mem_filter, decide_eq_true_eq, and_imp, ne_eq,
      toInt_eq_zero_iff, Nat.zero_testBit, and_true]
    refine forall₃_congr fun value _ _ => exists_congr fun k => ?_
    exact ⟨fun h => ⟨le_of_toInt_eq_two_pow h, h⟩, And.right⟩

/-! ## In a machine word -/

/-- The test of the values of an enumeration with the bits of those before them in a machine
word. -/
def areFlagsInWord (bits : UInt64) : List Int64 → Bool
  | [] => bits ≠ 0
  | value :: values =>
    if value = 0 then areFlagsInWord bits values
    else if value < 0 then false
    else
      let word := value.toUInt64
      if word ≠ 0 && word &&& (word - 1) = 0 && bits &&& word = 0 then
        areFlagsInWord (bits ||| word) values
      else false

lemma toNat_toUInt64 {value : Int64} (h : 0 ≤ value.toInt) :
    value.toUInt64.toNat = value.toInt.toNat := by
  have hword : value.toInt = value.toUInt64.toBitVec.toInt := rfl
  have hlt := value.toUInt64.toNat_lt
  rw [hword, BitVec.toInt_eq_toNat_cond, UInt64.toNat_toBitVec] at h ⊢
  split at h
  · rw [if_pos ‹_›, Int.toNat_natCast]
  · omega

lemma isSingleBit_toNat (word : UInt64) :
    isSingleBit word.toNat = (decide (word ≠ 0) && decide (word &&& (word - 1) = 0)) := by
  by_cases hword : word = 0
  · subst hword
    rfl
  · have hne : word.toNat ≠ 0 := fun h => hword (UInt64.toNat_inj.1 h)
    have hone : (1 : UInt64) ≤ word := UInt64.le_iff_toNat_le.2 (Nat.one_le_iff_ne_zero.2 hne)
    have hpred : (word - 1).toNat = word.toNat - 1 := UInt64.toNat_sub_of_le _ _ hone
    simp [isSingleBit, hword, hne, ← UInt64.toNat_inj, hpred]

/-- The bits of an enumeration never outgrow the word. -/
theorem areFlagsInWord_eq (bits : UInt64) (values : List Int64) :
    areFlagsInWord bits values = areFlags bits.toNat (values.map Int64.toInt) := by
  induction values generalizing bits with
  | nil => simp [areFlagsInWord, areFlags, ← UInt64.toNat_inj]
  | cons value values ih =>
    rw [areFlagsInWord, List.map_cons, areFlags]
    simp only [toInt_eq_zero_iff, ih]
    by_cases hzero : value = 0
    · rw [if_pos hzero, if_pos hzero]
    rw [if_neg hzero, if_neg hzero]
    have hlt : value < 0 ↔ value.toInt < 0 := Int64.lt_iff_toInt_lt
    by_cases hneg : value < 0
    · rw [if_pos hneg, decide_eq_false (Int.lt_asymm (hlt.1 hneg))]
      rfl
    · have hpos : 0 < value.toInt := by
        have := mt toInt_eq_zero_iff.1 hzero
        have := mt hlt.2 hneg
        omega
      rw [if_neg hneg, decide_eq_true hpos, ← toNat_toUInt64 (Int.le_of_lt hpos),
        isSingleBit_toNat, ← UInt64.toNat_and, ← UInt64.toNat_or]
      simp [← UInt64.toNat_inj]

end FlagEnum

/-! ## The pass -/

/-- An enumeration marked as its members demand; any other declaration as it is. -/
def Decl.classified (d : Decl) : Decl :=
  match d.payload with
  | .enumType variants _ => { d with payload := .enumType variants (FlagEnum.isFlagSet variants) }
  | _ => d

namespace Tree

lemma decl_classifyEnum_self (t : Tree) (id : Nat) :
    (t.classifyEnum id).tree.decl id = (t.decl id).classified := by
  unfold Decl.classified
  rcases classifyEnum_cases t id with ⟨hmarked, hidle⟩ | ⟨variants, isFlags, hpayload, htree⟩
  · rw [hidle.1]
    split
    · next variants isFlags hpayload => rw [hmarked variants isFlags hpayload, ← hpayload]
    · rfl
  · have hid : id < t.size := lt_size_of_kind (by simp [Decl.kind, hpayload, Payload.kind])
    rw [htree, decl_edit, if_pos ⟨rfl, hid⟩, hpayload]
    simp only [Edit.apply, hpayload, Edit.applyPayload]

lemma decl_classifyEnums (t : Tree) (id : Nat) :
    t.classifyEnums.tree.decl id = (t.decl id).classified := by
  rw [classifyEnums, Progress.decl_sweep (I := fun _ => True) (fun id => (t.decl id).classified)
    (fun u id _ hsame => by rw [decl_classifyEnum_self, hsame]) (fun _ _ _ _ => trivial)
    (fun _ _ _ hne => decl_classifyEnum_of_ne hne) t.nodup_walk trivial]
  split
  · rfl
  · next hid =>
    rw [mem_walk_iff, Nat.not_lt] at hid
    rw [decl_of_size_le hid]
    rfl

/-- What makes members flags depends on their nonzero values only, and not on the order of these.
Every enumeration, wherever it stands and however it was marked, gets the mark that its members
demand, and nothing else is changed. -/
theorem classifyEnums_exact (t : Tree) :
    (∀ variants, (FlagEnum.isFlagSet variants = true ↔ FlagEnum.nonzeroValues variants ≠ [] ∧
        (∀ value ∈ FlagEnum.nonzeroValues variants, ∃ k ≤ 62, value.toInt = 2 ^ k) ∧
        (FlagEnum.nonzeroValues variants).Nodup) ∧
      FlagEnum.isFlagSet variants = FlagEnum.areFlagsInWord 0 (variants.map (·.2)) ∧
      (∀ others, (FlagEnum.nonzeroValues others).Perm (FlagEnum.nonzeroValues variants) →
        FlagEnum.isFlagSet others = FlagEnum.isFlagSet variants) ∧
      (Int64.minValue ∈ variants.map (·.2) → FlagEnum.isFlagSet variants = false)) ∧
    t.classifyEnums.tree.size = t.size ∧
    ∀ id, t.classifyEnums.tree.parent? id = t.parent? id ∧
      t.classifyEnums.tree.decl id = (t.decl id).classified := by
  refine ⟨fun variants => ⟨FlagEnum.isFlagSet_iff variants, ?_, fun others hperm => ?_,
    fun hmin => ?_⟩, size_classifyEnums t, fun id => ⟨?_, decl_classifyEnums t id⟩⟩
  · rw [FlagEnum.areFlagsInWord_eq, FlagEnum.isFlagSet, List.map_map]
    rfl
  · rw [Bool.eq_iff_iff, FlagEnum.isFlagSet_iff, FlagEnum.isFlagSet_iff, hperm.nodup_iff, Ne, Ne,
      ← List.length_eq_zero_iff, ← List.length_eq_zero_iff, hperm.length_eq]
    simp only [hperm.mem_iff]
  · rw [← Bool.not_eq_true, FlagEnum.isFlagSet_iff]
    rintro ⟨-, hvalues, -⟩
    obtain ⟨k, -, hk⟩ := hvalues Int64.minValue (List.mem_filter.2 ⟨hmin, by decide⟩)
    have hpos : (0 : Int) < 2 ^ k := Int.pow_pos (by decide)
    rw [← hk, Int64.toInt_minValue] at hpos
    exact absurd hpos (by decide)
  · exact (develops_classifyEnums t).parent?_eq_of_size_eq (size_classifyEnums t) id

/-- An enumeration in a class, kept out and marked as none of flags, whose members are flags in
descending order with two names for nothing. -/
def optionsTree : Tree :=
  Tree.empty.changed [
    .insert none (.new ⟨"tu:a.h"⟩ "a.h" .translationUnit),
    .insert (some 0) (.new ⟨"Window"⟩ "Window" (.classType true [])),
    .insert (some 1) { Decl.new ⟨"Options"⟩ "Options" (.enumType
      [("All", 0x4000000000000000), ("None", 0), ("Border", 2), ("Off", 0)] false) with
      ignored := true }]

/-- The same values in another order and under other names are flags as well, and with the least
integer among them they are not. -/
theorem classifyEnums_exact_optionsTree :
    (optionsTree.classifyEnums.tree.decl 2).flags? = some true ∧
      FlagEnum.isFlagSet [("a", 2), ("b", 0x4000000000000000)] = true ∧
      FlagEnum.isFlagSet [("a", 2), ("b", Int64.minValue)] = false := by
  obtain ⟨hrule, -, hdecl⟩ := classifyEnums_exact optionsTree
  have hflags : FlagEnum.isFlagSet
      [("All", 0x4000000000000000), ("None", 0), ("Border", 2), ("Off", 0)] = true := by
    decide
  refine ⟨?_, ?_, (hrule _).2.2.2 (by decide)⟩
  · rw [(hdecl 2).2]
    decide +kernel
  · rw [← hflags]
    exact (hrule _).2.2.1 _ (by decide)

end Tree

end Bindery
