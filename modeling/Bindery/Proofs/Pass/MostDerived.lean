import Mathlib.Data.Fintype.EquivFin
import Bindery.Proofs.Pass.SimultaneousDefaults

/-!
# When the most derived default value wins

A method takes over the default value of the first overridden method that gives one.  That is one of
a most derived class if the search comes to a class only after all classes found that are derived
from it (`SearchesDerivedFirst`).  A search that goes depth first need not do so: a base that is
shared by two classes is found below the first of them, and so before the second
(`not_mostDerivedWins_diamondTree`).

The condition is a matter of the base lists alone, and it is exact: where it holds the most derived
default value wins whatever the methods are, and where it does not hold there are methods for which
it does not win (`mostDerivedWins_iff`).
-/

namespace Bindery

namespace Tree

variable {t u v : Tree} {free : List Field} {m i b b' c x y : Nat}

/-! ## The order of the search -/

/-- Below every class the search comes to derived classes before it comes to what they derive
from. -/
def SearchesDerivedFirst (t : Tree) : Prop :=
  ∀ c, (t.ancestry t.ids (t.decl c).bases).Pairwise fun x y => ¬ t.DerivesFrom y x

/-- What is found below each class says whether the condition holds. -/
lemma searchesDerivedFirst_iff : t.SearchesDerivedFirst ↔ ∀ c ∈ t.ids,
    (t.ancestry t.ids (t.decl c).bases).Pairwise fun x y =>
      x ∉ t.ancestry t.ids (t.decl y).bases := by
  simp only [mem_ancestry_iff]
  refine ⟨fun h c _ => h c, fun h c => ?_⟩
  by_cases hc : c < t.size
  · exact h c (mem_ids_iff.2 hc)
  · rw [decl_of_size_le (Nat.le_of_not_lt hc), bases_eq_nil_of_kind_ne (by decide), ancestry]
    exact .nil

lemma SearchesDerivedFirst.of_develops (hfirst : t.SearchesDerivedFirst)
    (h : t.Develops free u) : u.SearchesDerivedFirst := by
  intro c
  simp only [searched_of_develops h, derivesFrom_of_develops h]
  exact hfirst c

/-- The class of `b'` is not derived from that of `b`. -/
def NotBelow (t : Tree) (b b' : Nat) : Prop :=
  ∀ c c', t.parent? b = some c → t.parent? b' = some c' → ¬ t.DerivesFrom c' c

/-- Overridden methods come in the order of their classes. -/
lemma SearchesDerivedFirst.pairwise_overridden (hfirst : t.SearchesDerivedFirst)
    (hacyclic : t.Acyclic) (m : Nat) : (t.overridden m).Pairwise t.NotBelow := by
  have hparent {x b c : Nat} (hb : b ∈ t.overriddenIn m x) (hc : t.parent? b = some c) : x = c :=
    Option.some.inj ((mem_overriddenIn_iff.1 hb).1.symm.trans hc)
  cases hinstance : t.isInstanceMethod m with
  | false => rw [overridden_eq_nil hinstance]; exact .nil
  | true =>
    obtain ⟨owner, howner⟩ := exists_owner hinstance
    rw [overridden_eq_flatMap hinstance howner, List.pairwise_flatMap]
    constructor
    · intro x _
      refine List.pairwise_of_forall_mem_list fun b hb b' hb' c c' hc hc' => ?_
      rw [← hparent hb hc, ← hparent hb' hc']
      exact hacyclic x
    · refine (hfirst owner).imp fun {x y} hxy b hb b' hb' c c' hc hc' => ?_
      rw [← hparent hb hc, ← hparent hb' hc']
      exact hxy

/-! ## Taking a default value over -/

/-- The tree is `v` when the pass comes to the method `m`. -/
def ComesTo (t : Tree) (m : Nat) (v : Tree) : Prop :=
  ∃ front rest, t.openMethods = front ++ m :: rest ∧
    (Progress.sweep inheritDefaultsOf front t).tree = v

/-- When the pass comes to the method `m` the tree is `v`, and the parameter at `i` takes over the
default value that the method `b` has then. -/
structure Takes (t : Tree) (m i b : Nat) (v : Tree) : Prop where
  comes : t.ComesTo m v
  gap : v.defaultOf? i m = none
  source : (v.overridden m).find? (fun b => (v.defaultOf? i b).isSome) = some b
  taken : (v.inheritDefaultsOf m).tree.defaultOf? i m = v.defaultOf? i b

/-- No default value is taken over while another overridden method, of a class derived from that of
the method it comes from, has one, too. -/
def MostDerivedWins (t : Tree) : Prop :=
  ∀ m i b v, t.Takes m i b v →
    ∀ b' ∈ v.overridden m, (v.defaultOf? i b').isSome = true → v.NotBelow b b'

namespace ComesTo

lemma develops (h : t.ComesTo m v) : t.Develops [.defaults] v := by
  obtain ⟨front, -, -, rfl⟩ := h
  exact Progress.sweep_develops develops_inheritDefaultsOf front t

lemma size_eq (h : t.ComesTo m v) : v.size = t.size := by
  obtain ⟨front, -, -, rfl⟩ := h
  exact Progress.size_sweep size_inheritDefaultsOf front t

lemma overridden_eq (h : t.ComesTo m v) (id : Nat) : v.overridden id = t.overridden id :=
  Tree.overridden_eq (h.develops.alike h.size_eq) id

/-- The pass has not been at the method before. -/
lemma decl_eq (h : t.ComesTo m v) : v.decl m = t.decl m := by
  obtain ⟨front, rest, hsplit, rfl⟩ := h
  have hnodup : (front ++ m :: rest).Nodup := hsplit ▸ t.nodup_openMethods
  have hm : m ∉ front := fun hmem =>
    (List.nodup_append.1 hnodup).2.2 m hmem m List.mem_cons_self rfl
  refine Progress.sweep_invariant (I := fun u => u.decl m = t.decl m) (fun id hid u hu => ?_) rfl
  rw [givesDefaults_inheritDefaultsOf.decl_of_ne (ne_of_mem_of_not_mem hid hm), hu]

lemma isSome_defaultOf? (h : t.ComesTo m v) (hb : (t.defaultOf? i b).isSome = true) :
    (v.defaultOf? i b).isSome = true := by
  obtain ⟨front, -, -, rfl⟩ := h
  exact (givesDefaults_inheritDefaultsOf.related_sweep Completion.refl Completion.trans front t
    b).isSome_of_isSome hb

end ComesTo

lemma exists_comesTo (hm : m ∈ t.openMethods) : ∃ v, t.ComesTo m v := by
  obtain ⟨front, rest, hsplit⟩ := List.append_of_mem hm
  exact ⟨_, front, rest, hsplit, rfl⟩

/-- The search finds the derived classes first, so what it finds first is most derived. -/
lemma SearchesDerivedFirst.mostDerivedWins (hfirst : t.SearchesDerivedFirst)
    (hacyclic : t.Acyclic) : t.MostDerivedWins := by
  intro m i b v htakes b' hb' hdefault c c' hc hc'
  have hdev := htakes.comes.develops
  have hacyclic' := hacyclic.of_develops hdev
  have hpairwise := (hfirst.of_develops hdev).pairwise_overridden hacyclic' m
  obtain ⟨-, front, rest, hsplit, hnone⟩ := List.find?_eq_some_iff_append.1 htakes.source
  rw [hsplit] at hpairwise hb'
  rcases List.mem_append.1 hb' with hmem | hmem
  · -- before the first there is none with a default value
    have := hnone b' hmem
    simp [hdefault] at this
  · rcases List.mem_cons.1 hmem with rfl | hmem
    · obtain rfl : c = c' := Option.some.inj (hc.symm.trans hc')
      exact hacyclic' c
    · have hbelow := (List.pairwise_cons.1 (List.pairwise_append.1 hpairwise).2.1).1
      exact hbelow b' hmem c c' hc hc'

/-- A method that overrides a method with a default value for its only parameter before all others
takes that one over. -/
lemma exists_takes {rest : List Nat} (hm : m ∈ t.openMethods)
    (hgap : (t.decl m).defaultValues = [none]) (hover : t.overridden m = b :: rest)
    (hb : (t.defaultOf? 0 b).isSome = true) : ∃ v, t.Takes m 0 b v := by
  obtain ⟨v, hv⟩ := exists_comesTo hm
  obtain ⟨value, hvalue⟩ := Option.isSome_iff_exists.1 (hv.isSome_defaultOf? hb)
  refine ⟨v, hv, ?_, ?_, ?_⟩
  · rw [defaultOf?, hv.decl_eq, hgap]
    rfl
  · rw [hv.overridden_eq, hover, List.find?_cons_of_pos]
    rw [hvalue]
    rfl
  · have hinherited : v.inheritedDefault? (v.overridden m) 0 = some value := by
      rw [inheritedDefault?_eq, hv.overridden_eq, hover, List.findSome?_cons, hvalue]
    have hall : AllDefault [] fun i => v.inheritedDefault? (v.overridden m) (i + 1) :=
      fun i hi => absurd hi (Nat.not_lt_zero i)
    rw [defaultOf?, decl_inheritDefaultsOf, defaultValues_completed, hv.decl_eq, hgap,
      completedDefaults_cons, if_pos hall, hinherited, hvalue]
    rfl

/-! ## Methods for which it matters -/

/-- A virtual method with one parameter that may have a default value. -/
def probeMethod (value : Option String) : Method :=
  ⟨⟨.void, [⟨"x", .builtin "int", value⟩], false⟩, true, false, none, none⟩

/-- The declaration of such a method. -/
def probe (usr name : String) (value : Option String) : Decl :=
  .new ⟨usr⟩ name (.method (probeMethod value))

lemma exists_fresh (used : List String) : ∃ name, name ∉ used := by
  obtain ⟨name, hname⟩ := Infinite.exists_notMem_finset used.toFinset
  exact ⟨name, fun hmem => hname (List.mem_toFinset.2 hmem)⟩

/-- A class has room for one more method. -/
lemma exists_insert_probe (hc : (t.decl c).kind = .classType) (name : String)
    (value : Option String) :
    ∃ usr u, t.insert (some c) (probe usr name value) = .ok u := by
  obtain ⟨usr, husr⟩ := exists_fresh (t.ids.map fun id => (t.decl id).usr.text)
  have hlt : c < t.size := lt_size_of_kind (by rw [hc]; decide)
  refine ⟨usr, exists_insert_eq_ok (admits_iff.2 ⟨fun p hp => ?_, ?_⟩)
    (get?_eq_none_iff.2 fun id hid heq => husr ?_)⟩
  · cases hp
    exact hlt
  · rw [Option.map_some, hc]
    rfl
  · exact List.mem_map.2 ⟨id, mem_ids_iff.2 hid, congrArg Usr.text heq⟩

lemma overrides_probe {usr usr' name : String} {value value' : Option String}
    (hm : t.decl m = probe usr name value) (hb : t.decl b = probe usr' name value') :
    t.overrides m b = true :=
  overrides_iff.2 ⟨probeMethod value, probeMethod value', by rw [hm]; rfl, by rw [hb]; rfl, rfl,
    by rw [hm, hb]; rfl, rfl⟩

/-- Methods of one new name have been added to the classes `x`, `y` and `c`, and only the last of
them has no default value. -/
structure Probed (t : Tree) (x y c : Nat) (name : String) (u : Tree) : Prop where
  develops : t.Develops Field.all u
  size_eq : u.size = t.size + 3
  headerName_ne : ∀ id < t.size, (u.decl id).headerName ≠ name
  first : u.parent? t.size = some x ∧ ∃ usr, u.decl t.size = probe usr name (some "1")
  second : u.parent? (t.size + 1) = some y ∧
    ∃ usr, u.decl (t.size + 1) = probe usr name (some "2")
  last : u.parent? (t.size + 2) = some c ∧ ∃ usr, u.decl (t.size + 2) = probe usr name none

lemma exists_probed (hx : (t.decl x).kind = .classType) (hy : (t.decl y).kind = .classType)
    (hc : (t.decl c).kind = .classType) : ∃ name u, t.Probed x y c name u := by
  have hlt {z : Nat} (hz : (t.decl z).kind = .classType) : z < t.size :=
    lt_size_of_kind (by rw [hz]; decide)
  obtain ⟨name, hname⟩ := exists_fresh (t.ids.map fun id => (t.decl id).headerName)
  obtain ⟨usr₁, u₁, h₁⟩ := exists_insert_probe hx name (some "1")
  have hdev₁ := develops_insert h₁ rfl
  have hsize₁ := size_of_insert h₁
  obtain ⟨usr₂, u₂, h₂⟩ := exists_insert_probe ((hdev₁.kind_eq (hlt hy)).trans hy) name (some "2")
  have hdev₂ := hdev₁.trans (develops_insert h₂ rfl)
  have hsize₂ := size_of_insert h₂
  obtain ⟨usr₃, u₃, h₃⟩ := exists_insert_probe ((hdev₂.kind_eq (hlt hc)).trans hc) name none
  have hdev₃ := hdev₂.trans (develops_insert h₃ rfl)
  have hsize₃ := size_of_insert h₃
  have hdecl (id : Nat) : u₃.decl id = if id = t.size + 2 then probe usr₃ name none
      else if id = t.size + 1 then probe usr₂ name (some "2")
      else if id = t.size then probe usr₁ name (some "1") else t.decl id := by
    rw [decl_of_insert h₃, decl_of_insert h₂, decl_of_insert h₁, hsize₂, hsize₁]
  have hparent (id : Nat) : u₃.parent? id = if id = t.size + 2 then some c
      else if id = t.size + 1 then some y
      else if id = t.size then some x else t.parent? id := by
    rw [parent?_of_insert h₃, parent?_of_insert h₂, parent?_of_insert h₁, hsize₂, hsize₁]
  refine ⟨name, u₃, hdev₃.mono (Field.subset_all _), by omega, fun id hid heq => ?_, ?_, ?_, ?_⟩
  · rw [hdecl, if_neg (by omega), if_neg (by omega), if_neg (by omega)] at heq
    exact hname (List.mem_map.2 ⟨id, mem_ids_iff.2 hid, heq⟩)
  · exact ⟨by simp [hparent], usr₁, by simp [hdecl]⟩
  · exact ⟨by simp [hparent], usr₂, by simp [hdecl]⟩
  · exact ⟨by simp [hparent], usr₃, by simp [hdecl]⟩

namespace Probed

variable {name : String} (h : t.Probed x y c name u)

include h

/-- The last of the new methods overrides the other two and nothing else. -/
lemma mem_overriddenIn {z : Nat} (hb : b ∈ u.overriddenIn (t.size + 2) z) :
    (b = t.size ∧ z = x) ∨ (b = t.size + 1 ∧ z = y) ∨ (b = t.size + 2 ∧ z = c) := by
  obtain ⟨hparent, -, hover⟩ := mem_overriddenIn_iff.1 hb
  obtain ⟨-, -, -, -, -, hheader, -⟩ := overrides_iff.1 hover
  obtain ⟨hparent₃, usr, hlast⟩ := h.last
  have hsize := h.size_eq
  have hlt := lt_size_of_parent? hparent
  have hnew : t.size ≤ b := by
    by_contra hold
    exact h.headerName_ne b (by omega) (hheader.trans (by rw [hlast]; rfl))
  rcases (by omega : b = t.size ∨ b = t.size + 1 ∨ b = t.size + 2) with rfl | rfl | rfl
  · exact .inl ⟨rfl, Option.some.inj (hparent.symm.trans h.first.1)⟩
  · exact .inr (.inl ⟨rfl, Option.some.inj (hparent.symm.trans h.second.1)⟩)
  · exact .inr (.inr ⟨rfl, Option.some.inj (hparent.symm.trans hparent₃)⟩)

lemma first_mem_overriddenIn : t.size ∈ u.overriddenIn (t.size + 2) x := by
  obtain ⟨hparent, usr, hdecl⟩ := h.first
  obtain ⟨-, usr', hlast⟩ := h.last
  exact mem_overriddenIn_iff.2 ⟨hparent, by rw [hdecl]; rfl, overrides_probe hlast hdecl⟩

lemma second_mem_overriddenIn : t.size + 1 ∈ u.overriddenIn (t.size + 2) y := by
  obtain ⟨hparent, usr, hdecl⟩ := h.second
  obtain ⟨-, usr', hlast⟩ := h.last
  exact mem_overriddenIn_iff.2 ⟨hparent, by rw [hdecl]; rfl, overrides_probe hlast hdecl⟩

/-- If the search below `c` comes to `x` before it comes to `y`, the default value of the method in
`x` is the first. -/
lemma exists_overridden_eq (hacyclic : t.Acyclic) {front rest : List Nat}
    (hsearch : t.ancestry t.ids (t.decl c).bases = front ++ x :: rest) (hy : y ∈ rest) :
    ∃ others, u.overridden (t.size + 2) = t.size :: others ∧ t.size + 1 ∈ others := by
  obtain ⟨howner, usr, hlast⟩ := h.last
  have hinstance : u.isInstanceMethod (t.size + 2) = true := by
    rw [isInstanceMethod, hlast]
    rfl
  have hnodup : (front ++ x :: rest).Nodup := hsearch ▸ nodup_ancestry t.ids_nodup _
  obtain ⟨-, hnodup', hdisjoint⟩ := List.nodup_append.1 hnodup
  have hc : c ∉ front ++ x :: rest := fun hmem =>
    hacyclic c (mem_ancestry_iff.1 (hsearch ▸ hmem))
  rw [overridden_eq_flatMap hinstance howner, searched_of_develops h.develops, hsearch,
    List.flatMap_append, List.flatMap_cons]
  have hfront : front.flatMap (u.overriddenIn (t.size + 2)) = [] := by
    refine List.flatMap_eq_nil_iff.2 fun z hz => List.eq_nil_iff_forall_not_mem.2 fun b hb => ?_
    rcases h.mem_overriddenIn hb with ⟨-, rfl⟩ | ⟨-, rfl⟩ | ⟨-, rfl⟩
    · exact hdisjoint z hz z List.mem_cons_self rfl
    · exact hdisjoint z hz z (List.mem_cons_of_mem _ hy) rfl
    · exact hc (List.mem_append_left _ hz)
  have hfound : u.overriddenIn (t.size + 2) x = [t.size] := by
    refine List.perm_singleton.1 ((List.perm_ext_iff_of_nodup (u.nodup_overriddenIn _ _)
      (List.nodup_singleton _)).2 fun b => ?_)
    rw [List.mem_singleton]
    refine ⟨fun hb => ?_, fun heq => heq ▸ h.first_mem_overriddenIn⟩
    rcases h.mem_overriddenIn hb with ⟨hb, -⟩ | ⟨-, rfl⟩ | ⟨-, rfl⟩
    · exact hb
    · exact absurd hy (List.nodup_cons.1 hnodup').1
    · exact absurd (List.mem_append_right _ List.mem_cons_self) hc
  rw [hfront, hfound]
  exact ⟨_, rfl, List.mem_flatMap.2 ⟨y, hy, h.second_mem_overriddenIn⟩⟩

/-- If `y` is derived from `x` the more derived default value does not win. -/
lemma not_mostDerivedWins (hacyclic : t.Acyclic) {front rest : List Nat}
    (hsearch : t.ancestry t.ids (t.decl c).bases = front ++ x :: rest) (hy : y ∈ rest)
    (hderived : t.DerivesFrom y x) : ¬ u.MostDerivedWins := by
  intro hwins
  obtain ⟨others, hover, hsecond⟩ := h.exists_overridden_eq hacyclic hsearch hy
  obtain ⟨hparent₁, usr₁, hfirst⟩ := h.first
  obtain ⟨hparent₂, usr₂, hother⟩ := h.second
  obtain ⟨-, usr, hlast⟩ := h.last
  have hopen : t.size + 2 ∈ u.openMethods :=
    mem_openMethods_iff.2 ⟨by rw [hlast]; rfl, by rw [hlast]; rfl⟩
  obtain ⟨v, htakes⟩ := exists_takes hopen (by rw [hlast]; rfl) hover
    (by rw [defaultOf?, hfirst]; rfl)
  have hdev := htakes.comes.develops
  have hsize := h.size_eq
  refine hwins _ _ _ v htakes (t.size + 1) ?_ (htakes.comes.isSome_defaultOf? ?_) x y ?_ ?_ ?_
  · rw [htakes.comes.overridden_eq, hover]
    exact List.mem_cons_of_mem _ hsecond
  · rw [defaultOf?, hother]
    rfl
  · rw [hdev.parent?_eq (by omega), hparent₁]
  · rw [hdev.parent?_eq (by omega), hparent₂]
  · rwa [derivesFrom_of_develops hdev, derivesFrom_of_develops h.develops]

end Probed

/-- The most derived default value wins, whatever the methods of the classes are, if and only if the
search comes to derived classes before it comes to what they derive from. -/
theorem mostDerivedWins_iff (hacyclic : t.Acyclic) :
    (∀ u, t.Develops Field.all u → u.MostDerivedWins) ↔ t.SearchesDerivedFirst := by
  constructor
  · intro h c
    rw [List.pairwise_iff_forall_sublist]
    intro x y hsub hderived
    obtain ⟨front, rest, hsplit, hx, hy⟩ := List.cons_sublist_iff.1 hsub
    obtain ⟨before, behind, rfl⟩ := List.append_of_mem hx
    rw [List.singleton_sublist] at hy
    have hsearch : t.ancestry t.ids (t.decl c).bases = before ++ x :: (behind ++ rest) := by
      rw [hsplit, List.append_assoc, List.cons_append]
    have hmem : x ∈ t.ancestry t.ids (t.decl c).bases := by simp [hsearch]
    have hmem' : y ∈ t.ancestry t.ids (t.decl c).bases := by simp [hsearch, hy]
    have hc : (t.decl c).kind = .classType := by
      by_contra hkind
      rw [bases_eq_nil_of_kind_ne hkind, ancestry] at hmem
      exact absurd hmem List.not_mem_nil
    obtain ⟨name, u, hu⟩ :=
      exists_probed (kind_of_mem_ancestry hmem) (kind_of_mem_ancestry hmem') hc
    exact hu.not_mostDerivedWins hacyclic hsearch (List.mem_append_right _ hy) hderived
      (h u hu.develops)
  · exact fun hfirst u h => (hfirst.of_develops h).mostDerivedWins (hacyclic.of_develops h)

/-- A class `D` derived from `B` and `C`, where only `C` is derived from `A`. -/
def forkTree : Tree :=
  empty.changed [
    .insert none (.new ⟨"tu:a.h"⟩ "a.h" .translationUnit),
    .insert (some 0) (.new ⟨"D"⟩ "D" (.classType true [⟨"B"⟩, ⟨"C"⟩])),
    .insert (some 0) (.new ⟨"B"⟩ "B" (.classType true [])),
    .insert (some 0) (.new ⟨"C"⟩ "C" (.classType true [⟨"A"⟩])),
    .insert (some 0) (.new ⟨"A"⟩ "A" (.classType true []))]

theorem mostDerivedWins_forkTree :
    forkTree.Acyclic ∧ forkTree.SearchesDerivedFirst ∧
      ∀ u, forkTree.Develops Field.all u → u.MostDerivedWins := by
  have hacyclic : forkTree.Acyclic := acyclic_of_lt (by decide +kernel)
  have hids : forkTree.ids = [0, 1, 2, 3, 4] := by decide +kernel
  have hunit : forkTree.ancestry forkTree.ids (forkTree.decl 0).bases = [] := by cbv
  have hD : forkTree.ancestry forkTree.ids (forkTree.decl 1).bases = [2, 3, 4] := by cbv
  have hB : forkTree.ancestry forkTree.ids (forkTree.decl 2).bases = [] := by cbv
  have hC : forkTree.ancestry forkTree.ids (forkTree.decl 3).bases = [4] := by cbv
  have hA : forkTree.ancestry forkTree.ids (forkTree.decl 4).bases = [] := by cbv
  have hfirst : forkTree.SearchesDerivedFirst := by
    rw [searchesDerivedFirst_iff]
    intro c hc
    rw [hids] at hc
    simp only [List.mem_cons, List.not_mem_nil, or_false] at hc
    rcases hc with rfl | rfl | rfl | rfl | rfl <;> simp [hunit, hD, hB, hC, hA]
  exact ⟨hacyclic, hfirst, (mostDerivedWins_iff hacyclic).2 hfirst⟩

/-- The method of `D` takes the default value of `A` over, though there is one in `C` which is
derived from `A`. -/
theorem not_mostDerivedWins_diamondTree :
    diamondTree.Acyclic ∧ ¬ diamondTree.MostDerivedWins := by
  refine ⟨acyclic_diamondTree, fun hwins => ?_⟩
  have htakes : diamondTree.Takes 2 0 8 diamondTree := by
    refine ⟨⟨[], [4, 6, 8], by decide +kernel, rfl⟩, by decide +kernel, ?_, ?_⟩
    · rw [overridden_diamondTree]
      decide +kernel
    · rw [defaultOf?, decl_inheritDefaultsOf, defaultValues_completed, overridden_diamondTree]
      decide +kernel
  have hbase : diamondTree.HasBase 5 7 := ⟨⟨"A"⟩, by decide +kernel, by decide +kernel⟩
  refine hwins 2 0 8 diamondTree htakes 6 ?_ (by decide +kernel) 7 5 (by decide +kernel)
    (by decide +kernel) (.single hbase)
  rw [overridden_diamondTree]
  decide

end Tree

end Bindery
