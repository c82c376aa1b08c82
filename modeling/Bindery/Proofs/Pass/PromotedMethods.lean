import Bindery.Proofs.Pass.Promotion
import Mathlib.Data.List.Sort

/-!
# Which functions become methods, and what methods they become

What promotion does can be told from the tree it begins with: the functions for which
`BecomesMethod` holds there are hidden, and for each of them, in the order of the walk, one method
(`IsMadeFrom`) is added at the end of the class behind its first argument (`promoteFunctions_exact`).

The pass takes its decisions one at a time, in a tree that has grown meanwhile.  `Underway` says what
such a tree is like: it is the first one, less the functions that have been promoted and with their
methods (`Promotes`).  A decision comes out as it would in the first tree
(`Underway.promotion?_of_becomesMethod`, `Underway.becomesMethod_of_promotable`).  Classes and what is
behind types have not changed; an identifier that was free is still free, because the new methods have
the identifiers of other functions in theirs (`Underway.get?_promoted`).
-/

namespace Bindery

lemma Usr.promoted_injective : Function.Injective Usr.promoted := by
  intro a b h
  have htext : a.text ++ "#instance" = b.text ++ "#instance" := congrArg Usr.text h
  obtain ⟨text⟩ := a
  obtain ⟨text'⟩ := b
  exact congrArg Usr.mk (String.append_left_inj _ |>.1 htext)

/-! ## Names and methods -/

namespace Promotion

/-- `short` is `name` less the name of a class and an underscore in front of it, if it begins with
these and does not end there. -/
def IsShortened (className name short : String) : Prop :=
  (short ≠ "" ∧ name = className ++ "_" ++ short) ∨
    (short = name ∧ ∀ rest, name = className ++ "_" ++ rest → rest = "")

lemma isShortened_withoutClassName (className name : String) :
    IsShortened className name (withoutClassName className name) := by
  have hafter (rest : List Char) : Text.after? (className ++ "_").toList name.toList = some rest ↔
      name = className ++ "_" ++ String.ofList rest := by
    rw [Text.after?_eq_some_iff, ← String.toList_inj]
    simp
  unfold withoutClassName
  cases hrest : Text.after? (className ++ "_").toList name.toList with
  | none =>
    refine .inr ⟨rfl, fun rest hname => ?_⟩
    rw [(hafter rest.toList).2 (by rwa [String.ofList_toList])] at hrest
    exact absurd hrest (by simp)
  | some rest =>
    cases rest with
    | nil =>
      refine .inr ⟨rfl, fun rest hname => ?_⟩
      rw [(hafter rest.toList).2 (by rwa [String.ofList_toList])] at hrest
      exact String.toList_eq_nil_iff.1 (Option.some.inj hrest)
    | cons c cs => exact .inl ⟨by simp, (hafter _).1 hrest⟩

end Promotion

/-- `m` is the public instance method that is made of the function `f` for a class: the first argument
of `f` is its receiver, and the name loses that of the class if `strip` says so. -/
def Decl.IsMadeFrom (strip : Bool) (m f owner : Decl) : Prop :=
  ∃ signature receiver arguments name, f.signature? = some signature ∧
    signature.arguments = receiver :: arguments ∧
    (if strip then Promotion.IsShortened owner.headerName f.name name else name = f.name) ∧
    m = {
      usr := ⟨f.usr.text ++ "#instance"⟩
      name := name
      headerName := f.headerName
      ignored := false
      access := .isPublic
      payload := .method {
        signature := ⟨signature.result, arguments, signature.isVariadic⟩
        isVirtual := false
        isStatic := false
        receiver := some receiver
        promotedFrom := some f.usr } }

namespace Decl.IsMadeFrom

variable {strip : Bool} {m f owner : Decl}

lemma usr_eq (h : m.IsMadeFrom strip f owner) : m.usr = f.usr.promoted := by
  obtain ⟨_, _, _, _, -, -, -, rfl⟩ := h
  rfl

lemma kind_eq (h : m.IsMadeFrom strip f owner) : m.kind = .method := by
  obtain ⟨_, _, _, _, -, -, -, rfl⟩ := h
  rfl

end Decl.IsMadeFrom

namespace Tree

variable {t u : Tree} {strip : Bool} {promoted : List (Nat × Nat)} {f c : Nat}

/-! ## What is to be promoted -/

/-- A function that is not kept out and lies directly in a translation unit or namespace is to become
a method of the class `c`: its first argument has a type behind which there is `c`, which has a
definition and is not kept out, and the identifier of the method is not taken. -/
structure BecomesMethod (t : Tree) (f c : Nat) : Prop where
  kind_eq : (t.decl f).kind = .function
  isOpen : (t.decl f).ignored = false
  scope : ∃ p, t.parent? f = some p ∧ (t.decl p).kind.isNamespaceScope = true
  receiver : ∃ signature first rest, (t.decl f).signature? = some signature ∧
    signature.arguments = first :: rest ∧ (t.classBehind first.type).value = some c
  class_isOpen : (t.decl c).ignored = false
  class_isComplete : (t.decl c).isCompleteClass = true
  fresh : ∀ id < t.size, (t.decl id).usr ≠ ⟨(t.decl f).usr.text ++ "#instance"⟩

lemma isFreeFunction_iff : t.isFreeFunction f = true ↔
    (t.decl f).kind = .function ∧ (t.decl f).ignored = false ∧
      ∃ p, t.parent? f = some p ∧ (t.decl p).kind.isNamespaceScope = true := by
  simp only [isFreeFunction, inNamespaceScope, Option.any_eq_true, Bool.and_eq_true,
    decide_eq_true_eq, Bool.not_eq_true', and_assoc]

namespace BecomesMethod

lemma isFreeFunction (h : t.BecomesMethod f c) : t.isFreeFunction f = true :=
  isFreeFunction_iff.2 ⟨h.kind_eq, h.isOpen, h.scope⟩

lemma lt_size (h : t.BecomesMethod f c) : f < t.size :=
  lt_size_of_kind (by rw [h.kind_eq]; decide)

lemma class_kind_eq (h : t.BecomesMethod f c) : (t.decl c).kind = .classType := by
  obtain ⟨_, _, _, -, -, hclass⟩ := h.receiver
  exact (of_classBehind hclass).2

lemma class_lt_size (h : t.BecomesMethod f c) : c < t.size :=
  lt_size_of_kind (by rw [h.class_kind_eq]; decide)

lemma unique {c' : Nat} (h : t.BecomesMethod f c) (h' : t.BecomesMethod f c') : c' = c := by
  obtain ⟨s, first, rest, hs, harguments, hclass⟩ := h.receiver
  obtain ⟨s', first', rest', hs', harguments', hclass'⟩ := h'.receiver
  obtain rfl := Option.some.inj (hs.symm.trans hs')
  obtain ⟨rfl, -⟩ := List.cons.inj (harguments.symm.trans harguments')
  exact Option.some.inj (hclass'.symm.trans hclass)

lemma of_promotable (hfree : t.isFreeFunction f = true) (h : t.Promotable f) :
    ∃ c, t.BecomesMethod f c := by
  obtain ⟨hkind, hopen, hscope⟩ := isFreeFunction_iff.1 hfree
  obtain ⟨type, c, htype, hclass, hclassOpen, hcomplete, hfresh⟩ := h
  obtain ⟨signature, first, rest, hsignature, harguments, rfl⟩ :=
    Decl.firstType?_eq_some_iff.1 htype
  exact ⟨c, hkind, hopen, hscope, ⟨signature, first, rest, hsignature, harguments, hclass⟩,
    hclassOpen, hcomplete, get?_eq_none_iff.1 hfresh⟩

end BecomesMethod

/-! ## What has been promoted -/

/-- `u` is the tree `t` after the promotion of some functions, each to a method of the class it is
listed with: the functions are hidden, and the methods follow after what there was. -/
structure Promotes (strip : Bool) (t : Tree) (promoted : List (Nat × Nat)) (u : Tree) : Prop where
  size_eq : u.size = t.size + promoted.length
  parent?_eq : ∀ id < t.size, u.parent? id = t.parent? id
  decl_eq : ∀ id < t.size, u.decl id =
    if id ∈ promoted.map Prod.fst then { t.decl id with ignored := true } else t.decl id
  added : ∀ i f c, promoted[i]? = some (f, c) → u.parent? (t.size + i) = some c ∧
    (u.decl (t.size + i)).IsMadeFrom strip (t.decl f) (t.decl c)

/-- The new methods are the last children of their classes, and nothing else has new children. -/
lemma Promotes.children_eq (h : t.Promotes strip promoted u) (id : Nat) :
    u.children id = t.children id ++
      (List.range' t.size promoted.length).filter fun m => u.parent? m = some id := by
  refine List.Pairwise.eq_of_mem_iff (r := (· < ·)) (u.pairwise_lt_children id) ?_ fun m => ?_
  · refine List.pairwise_append.2 ⟨t.pairwise_lt_children id, List.Pairwise.filter _ List.pairwise_lt_range',
      fun a ha b hb => ?_⟩
    have hlt := (mem_children ha).2.1
    have hle := (List.mem_range'_1.1 (List.mem_filter.1 hb).1).1
    exact Nat.lt_of_lt_of_le hlt hle
  · rw [List.mem_append, mem_children_iff, mem_children_iff, List.mem_filter, List.mem_range'_1,
      decide_eq_true_eq, ← h.size_eq]
    by_cases hm : m < t.size
    · rw [h.parent?_eq m hm]
      simp [hm]
    · rw [t.parent?_of_size_le (by omega)]
      refine ⟨fun hp => .inr ⟨⟨by omega, lt_size_of_parent? hp⟩, hp⟩, fun hp => ?_⟩
      exact (hp.resolve_left (by simp)).2

/-- The pass has come to `u`, and has found the listed functions to be promoted. -/
structure Underway (strip : Bool) (t : Tree) (promoted : List (Nat × Nat)) (u : Tree) : Prop
    extends Promotes strip t promoted u where
  develops : t.Develops [.ignored] u
  becomesMethod : ∀ f c, (f, c) ∈ promoted → t.BecomesMethod f c

namespace Underway

lemma start (strip : Bool) (t : Tree) : t.Underway strip [] t where
  size_eq := rfl
  parent?_eq _ _ := rfl
  decl_eq id _ := by simp
  added i f c h := by simp at h
  develops := .refl _ t
  becomesMethod f c h := absurd h List.not_mem_nil

lemma decl_eq_of_not_mem (h : t.Underway strip promoted u) (hf : f < t.size)
    (hnew : f ∉ promoted.map Prod.fst) : u.decl f = t.decl f := by
  rw [h.decl_eq f hf, if_neg hnew]

/-- Only functions have been hidden. -/
lemma decl_eq_of_kind_ne (h : t.Underway strip promoted u) (hf : f < t.size)
    (hkind : (t.decl f).kind ≠ .function) : u.decl f = t.decl f := by
  refine h.decl_eq_of_not_mem hf fun hmem => ?_
  obtain ⟨⟨g, c⟩, hg, rfl⟩ := List.mem_map.1 hmem
  exact hkind (h.becomesMethod g c hg).kind_eq

/-- The identifier of a method that has been added is not that of a method of another function. -/
theorem get?_promoted (h : t.Underway strip promoted u) (hf : f < t.size)
    (hnew : f ∉ promoted.map Prod.fst) (hfresh : t.get? (t.decl f).usr.promoted = none) :
    u.get? (t.decl f).usr.promoted = none := by
  refine get?_eq_none_iff.2 fun id hid husr => ?_
  by_cases hold : id < t.size
  · rw [h.develops.reads Decl.usr Decl.usr_shape hold] at husr
    exact get?_eq_none_iff.1 hfresh id hold husr
  · obtain ⟨i, rfl⟩ := Nat.exists_eq_add_of_le (Nat.le_of_not_lt hold)
    rw [h.size_eq, Nat.add_lt_add_iff_left] at hid
    obtain ⟨⟨g, c⟩, hentry⟩ : ∃ p, promoted[i] = p := ⟨_, rfl⟩
    have hmem : (g, c) ∈ promoted := hentry ▸ List.getElem_mem hid
    obtain ⟨-, hmade⟩ := h.added i g c (by rw [List.getElem?_eq_getElem hid, hentry])
    have hsame := Usr.promoted_injective (hmade.usr_eq.symm.trans husr)
    obtain rfl := eq_of_usr_eq (h.becomesMethod g c hmem).lt_size hf hsame
    exact hnew (List.mem_map_of_mem hmem)

/-- What was to be promoted at first still is, and to the same method. -/
theorem promotion?_of_becomesMethod (h : t.Underway strip promoted u)
    (hnew : f ∉ promoted.map Prod.fst) (hf : t.BecomesMethod f c) :
    ∃ m, (u.promotion? strip f).value = some ⟨c, m⟩ ∧
      m.IsMadeFrom strip (t.decl f) (t.decl c) := by
  have hdecl := h.decl_eq_of_not_mem hf.lt_size hnew
  have hclassDecl := h.decl_eq_of_kind_ne hf.class_lt_size (by rw [hf.class_kind_eq]; decide)
  have hfresh := h.get?_promoted hf.lt_size hnew (get?_eq_none_iff.2 hf.fresh)
  obtain ⟨signature, first, rest, hsignature, harguments, hclass⟩ := hf.receiver
  refine ⟨_, promotion?_of_fresh strip (hdecl ▸ hsignature) harguments
    ((h.develops.classBehind_eq _).symm ▸ hclass) (hclassDecl ▸ hf.class_isOpen)
    (hclassDecl ▸ hf.class_isComplete) (hdecl ▸ hfresh), ?_⟩
  rw [hdecl, hclassDecl]
  refine ⟨signature, first, rest, _, hsignature, harguments, ?_, rfl⟩
  split
  · exact Promotion.isShortened_withoutClassName _ _
  · rfl

/-- Nothing can be promoted that could not be at first. -/
theorem becomesMethod_of_promotable (h : t.Underway strip promoted u)
    (hfree : t.isFreeFunction f = true) (hf : u.Promotable f) : ∃ c, t.BecomesMethod f c :=
  BecomesMethod.of_promotable hfree (hf.of_develops h.develops
    (lt_size_of_kind (by rw [kind_of_isFreeFunction hfree]; decide)))

/-! ## One function -/

/-- A method is added and its function hidden. -/
lemma step (h : t.Underway strip promoted u) (hnew : f ∉ promoted.map Prod.fst)
    (hf : t.BecomesMethod f c) {m : Decl} {grown : Tree}
    (hm : m.IsMadeFrom strip (t.decl f) (t.decl c)) (hgrown : u.insert (some c) m = .ok grown) :
    t.Underway strip (promoted ++ [(f, c)]) (grown.edit f .ignore) := by
  have hsize := size_of_insert hgrown
  have hlt := hf.lt_size
  have hle := h.develops.size_le
  have hdecl {id : Nat} (hne : f ≠ id) (hid : id ≠ u.size) :
      (grown.edit f .ignore).decl id = u.decl id := by
    rw [decl_edit_of_ne hne, decl_of_insert hgrown, if_neg hid]
  have hparent {id : Nat} (hid : id ≠ u.size) :
      (grown.edit f .ignore).parent? id = u.parent? id := by
    rw [parent?_edit, parent?_of_insert hgrown, if_neg hid]
  refine ⟨⟨?_, fun id hid => ?_, fun id hid => ?_, fun i g c' hentry => ?_⟩, ?_, ?_⟩
  · rw [size_edit, hsize, h.size_eq, List.length_append, List.length_singleton, Nat.add_assoc]
  · rw [hparent (by omega), h.parent?_eq id hid]
  · by_cases hid' : f = id
    · subst hid'
      rw [decl_edit, if_pos ⟨rfl, by omega⟩, decl_of_insert hgrown, if_neg (by omega),
        h.decl_eq_of_not_mem hid hnew, if_pos (by simp)]
      rfl
    · rw [hdecl hid' (by omega), h.decl_eq id hid]
      simp only [List.map_append, List.map_singleton, List.mem_append, List.mem_singleton,
        Ne.symm hid', or_false]
  · -- the methods that were added before keep their places, and the new one comes behind them
    rw [List.getElem?_append] at hentry
    split at hentry
    · next hi =>
      have hne : t.size + i ≠ u.size := by
        rw [h.size_eq]
        omega
      rw [hparent hne, hdecl (by omega) hne]
      exact h.added i g c' hentry
    · next hi =>
      obtain ⟨hlast, hpair⟩ := List.getElem?_eq_some_iff.1 hentry
      obtain rfl : i = promoted.length := by
        rw [List.length_singleton] at hlast
        omega
      obtain ⟨rfl, rfl⟩ : f = g ∧ c = c' := by simpa using hpair
      rw [← h.size_eq, parent?_edit, decl_edit_of_ne (by omega), parent?_of_insert hgrown,
        decl_of_insert hgrown, if_pos rfl, if_pos rfl]
      exact ⟨rfl, hm⟩
  · exact h.develops.trans (((develops_insert hgrown hm.kind_eq).mono (by simp)).trans
      (develops_ignore grown f))
  · intro g c' hmem
    rw [List.mem_append, List.mem_singleton, Prod.mk.injEq] at hmem
    rcases hmem with hold | ⟨rfl, rfl⟩
    · exact h.becomesMethod g c' hold
    · exact hf

/-- What becomes of a function is decided as in the first tree. -/
lemma promoteOne_cases (h : t.Underway strip promoted u) (hfree : t.isFreeFunction f = true)
    (hnew : f ∉ promoted.map Prod.fst) :
    ((¬ ∃ c, t.BecomesMethod f c) ∧ (u.promoteOne strip f).Idle u) ∨
      ∃ c, t.BecomesMethod f c ∧ (u.promoteOne strip f).result = .ok 1 ∧
        t.Underway strip (promoted ++ [(f, c)]) (u.promoteOne strip f).tree := by
  by_cases hf : ∃ c, t.BecomesMethod f c
  · obtain ⟨c, hf⟩ := hf
    obtain ⟨m, hpromotion, hm⟩ := h.promotion?_of_becomesMethod hnew hf
    rcases Tree.promoteOne_cases strip u f with ⟨hnot, -⟩ | ⟨p, grown, hp, hgrown, htree, hresult⟩
    · exact absurd (of_promotion? hpromotion).1 hnot
    · obtain rfl := Option.some.inj (hpromotion.symm.trans hp)
      exact .inr ⟨c, hf, hresult, htree ▸ h.step hnew hf hm hgrown⟩
  · rcases Tree.promoteOne_cases strip u f with ⟨-, hidle⟩ | ⟨p, -, hp, -⟩
    · exact .inl ⟨hf, hidle⟩
    · exact absurd (h.becomesMethod_of_promotable hfree (of_promotion? hp).1) hf

/-! ## The whole pass -/

/-- A sweep promotes, of the functions it comes to, those that are to be promoted. -/
lemma exists_sweep (h : t.Underway strip promoted u) {ids : List Nat} (hnodup : ids.Nodup)
    (hfree : ∀ f ∈ ids, t.isFreeFunction f = true) (hnew : ∀ f ∈ ids, f ∉ promoted.map Prod.fst) :
    ∃ more : List (Nat × Nat), (more.map Prod.fst).Sublist ids ∧
      (∀ f c, (f, c) ∈ more ↔ f ∈ ids ∧ t.BecomesMethod f c) ∧
      (Outcome.sweep (promoteOne strip) ids u).result = .ok more.length ∧
      t.Underway strip (promoted ++ more) (Outcome.sweep (promoteOne strip) ids u).tree := by
  -- the induction is on what is still to come; `promoted` grows meanwhile
  induction ids generalizing promoted u with
  | nil => exact ⟨[], List.Sublist.refl _, by simp, rfl, by simpa [Outcome.sweep, Outcome.unchanged]⟩
  | cons id ids ih =>
    obtain ⟨hid, hnodup⟩ := List.nodup_cons.1 hnodup
    obtain ⟨hfreeFirst, hfree⟩ := List.forall_mem_cons.1 hfree
    obtain ⟨hnewFirst, hnew⟩ := List.forall_mem_cons.1 hnew
    rw [Outcome.sweep]
    rcases h.promoteOne_cases hfreeFirst hnewFirst with ⟨hnot, hidle⟩ | ⟨c, hc, hresult, hnext⟩
    · obtain ⟨more, hsub, hmem, hmore, hend⟩ := ih h hnodup hfree hnew
      rw [Outcome.andThen_of_ok hidle.2, hidle.1]
      refine ⟨more, hsub.cons id, fun f c => ?_, ?_, hend⟩
      · rw [hmem, List.mem_cons, or_and_right, or_iff_right]
        rintro ⟨rfl, hf⟩
        exact hnot ⟨c, hf⟩
      · simp [hmore, Except.map]
    · have hapart : ∀ f ∈ ids, f ∉ (promoted ++ [(id, c)]).map Prod.fst := by
        intro f hf hmem
        rw [List.map_append, List.mem_append, List.map_singleton, List.mem_singleton] at hmem
        rcases hmem with hmem | rfl
        · exact hnew f hf hmem
        · exact hid hf
      obtain ⟨more, hsub, hmem, hmore, hend⟩ := ih hnext hnodup hfree hapart
      rw [Outcome.andThen_of_ok hresult]
      refine ⟨(id, c) :: more, hsub.cons_cons id, fun f c' => ?_, ?_, ?_⟩
      · rw [List.mem_cons, List.mem_cons, hmem, Prod.mk.injEq, or_and_right]
        refine or_congr_left (and_congr_right ?_)
        rintro rfl
        exact ⟨fun heq => heq ▸ hc, fun hf => hc.unique hf⟩
      · simp [hmore, Except.map, Nat.add_comm]
      · simpa using hend

end Underway

/-- Promotion succeeds.  The functions that it hides are those for which `BecomesMethod` holds, and
their methods are added in the order of the walk, each to the class of its receiver; nothing else is
changed. -/
theorem promoteFunctions_exact (t : Tree) (strip : Bool) :
    ∃ promoted : List (Nat × Nat), (promoted.map Prod.fst).Sublist t.walk ∧
      (∀ f c, (f, c) ∈ promoted ↔ t.BecomesMethod f c) ∧
      (t.promoteFunctions strip).result = .ok promoted.length ∧
      t.Promotes strip promoted (t.promoteFunctions strip).tree ∧
      ∀ id, (t.promoteFunctions strip).tree.children id = t.children id ++
        (List.range' t.size promoted.length).filter fun m =>
          (t.promoteFunctions strip).tree.parent? m = some id := by
  obtain ⟨promoted, hsub, hmem, hresult, hend⟩ :=
    (Underway.start strip t).exists_sweep (t.nodup_walk.filter t.isFreeFunction)
      (fun f hf => (List.mem_filter.1 hf).2) (by simp)
  rw [List.nil_append] at hend
  refine ⟨promoted, hsub.trans List.filter_sublist, fun f c => ?_, hresult, hend.toPromotes,
    hend.toPromotes.children_eq⟩
  rw [hmem, and_iff_right_of_imp]
  exact fun h => List.mem_filter.2 ⟨mem_walk_iff.2 h.lt_size, h.isFreeFunction⟩

/-- An argument that is a pointer to a class. -/
def canvas : Argument := ⟨"self", .pointerTo (.named "Canvas" false (.declared ⟨"Canvas"⟩)), none⟩

/-- A class and three functions that take it.  The second one has the identifier that the method of
the first would be given. -/
def canvasTree : Tree :=
  Tree.empty.changed [
    .insert none (.new ⟨"tu:a.h"⟩ "a.h" .translationUnit),
    .insert (some 0) (.new ⟨"Canvas"⟩ "Canvas" (.classType true [])),
    .insert (some 0) (.new ⟨"f"⟩ "fill" (.function ⟨.void, [canvas], false⟩)),
    .insert (some 0) (.new ⟨"f#instance"⟩ "fill" (.function ⟨.void, [canvas], true⟩)),
    .insert (some 0) (.new ⟨"g"⟩ "Canvas_draw" (.function ⟨.void, [canvas], false⟩))]

/-- The first function stays as it is, and the last one becomes a method of the class. -/
theorem promoteFunctions_exact_canvasTree :
    (canvasTree.promoteFunctions true).tree.decl 2 = canvasTree.decl 2 ∧
      ((canvasTree.promoteFunctions true).tree.decl 4).ignored = true ∧
      ∃ m, (canvasTree.promoteFunctions true).tree.parent? m = some 1 ∧
        ((canvasTree.promoteFunctions true).tree.decl m).IsMadeFrom true (canvasTree.decl 4)
          (canvasTree.decl 1) := by
  obtain ⟨promoted, -, hmem, -, hend, -⟩ := promoteFunctions_exact canvasTree true
  have hlast : canvasTree.BecomesMethod 4 1 := by
    have hsignature : (canvasTree.decl 4).signature? = some ⟨.void, [canvas], false⟩ := by
      decide +kernel
    have hclass : (canvasTree.classBehind canvas.type).value = some 1 := by decide +kernel
    exact ⟨by decide +kernel, by decide +kernel, ⟨0, by decide +kernel, by decide +kernel⟩,
      ⟨_, canvas, [], hsignature, rfl, hclass⟩, by decide +kernel, by decide +kernel,
      by decide +kernel⟩
  have hfirst : 2 ∉ promoted.map Prod.fst := by
    intro h
    obtain ⟨⟨_, c⟩, hc, rfl⟩ := List.mem_map.1 h
    exact ((hmem _ c).1 hc).fresh 3 (by decide +kernel) (by decide +kernel)
  have hpromoted := (hmem 4 1).2 hlast
  obtain ⟨i, hi⟩ := List.mem_iff_getElem?.1 hpromoted
  refine ⟨?_, ?_, _, hend.added i 4 1 hi⟩
  · rw [hend.decl_eq 2 (by decide +kernel), if_neg hfirst]
  · rw [hend.decl_eq 4 (by decide +kernel), if_pos (List.mem_map_of_mem hpromoted)]

end Tree

end Bindery
