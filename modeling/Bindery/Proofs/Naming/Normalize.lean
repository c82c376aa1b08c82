import Bindery.Naming.Normalize
import Bindery.Proofs.Pass.DuplicateNames
import Bindery.Proofs.Selection
import Bindery.Proofs.Text.UpperCase

/-!
# Normalising names once

Taking off a prefix and beginning with a capital are each done once: nothing is left to do for
either right afterwards (`unprefixed_takeOffPrefix`, `capital_capitalise`).

Later a name may get an underscore and a number behind it (`Numbered`), and the question is whether
it can thereby turn back into the name of its header, from which the prefix would come off again.
It cannot if the prefix has no underscore (`ne_of_takeOff`): the name of the header has fewer
underscores than the numbered name, and a capital alone does not bring back the character that was
taken off.
-/

namespace Bindery

/-! ## Taking a prefix off a name -/

namespace NamePrefix

/-- The prefix does not consist of, or contain, a character. -/
def Avoids (rule : NamePrefix) (c : Char) : Prop :=
  match rule with
  | .nothing => True
  | .literal text => c ∉ text.toList
  | .charSet chars => c ∉ chars.toList

/-- What a prefix takes off stood in front of the name. -/
lemma exists_front_takeOff {rule : NamePrefix} {c : Char} (havoids : rule.Avoids c)
    (name : String) :
    ∃ front, c ∉ front ∧ name.toList = front ++ (rule.takeOff name).toList := by
  cases rule with
  | nothing => exact ⟨[], by simp, by simp [takeOff]⟩
  | literal text =>
    unfold takeOff
    cases hrest : Text.after? text.toList name.toList with
    | none => exact ⟨[], by simp, by simp [hrest]⟩
    | some rest =>
      refine ⟨text.toList, havoids, ?_⟩
      simpa [hrest] using Text.after?_eq_some_iff.1 hrest
  | charSet chars =>
    refine ⟨name.toList.takeWhile fun d => chars.toList.contains d, fun hmem => ?_, ?_⟩
    · exact havoids (List.contains_iff_mem.1 (List.all_eq_true.1 List.all_takeWhile _ hmem))
    · simp [takeOff]

/-- A capital does not put anything in front of a character. -/
lemma eq_nil_of_capital_eq_append {c : Char} {up front : List Char}
    (hup : up = [c] ∨ up = Text.upperChar c) (h : up = front ++ [c]) : front = [] := by
  have hself : up = [c] := by
    rcases hup with hup | hup
    · exact hup
    · rcases Text.upperChar_cases c with hself | ⟨hnot, -⟩
      · rw [hup, hself]
      · rw [← hup, h] at hnot
        exact absurd (List.mem_append_right _ (List.mem_singleton_self c)) hnot
  rw [hself] at h
  simpa using h

/-- Making a letter a capital takes no underscore away. -/
lemma count_underscore_le_capital {c : Char} {up : List Char}
    (hup : up = [c] ∨ up = Text.upperChar c) : [c].count '_' ≤ up.count '_' := by
  rcases hup with rfl | rfl
  · exact Nat.le_refl _
  · by_cases hc : c = '_'
    · rw [hc, Text.upperChar_underscore]
    · rw [List.count_singleton, if_neg (by simpa using hc)]
      exact Nat.zero_le _

/-- A name that lost its prefix does not become the old one by a capital and a number. -/
theorem ne_of_takeOff {rule : NamePrefix} (havoids : rule.Avoids '_') {name name' name'' : String}
    (hchanged : rule.takeOff name ≠ name) (hrest : rule.takeOff name ≠ "")
    (hcapital : name' = rule.takeOff name ∨ name' = Text.upperFirst (rule.takeOff name))
    (hnumbered : Numbered name' name'') : name'' ≠ name := by
  obtain ⟨front, hfront, hname⟩ := exists_front_takeOff havoids name
  generalize rule.takeOff name = stripped at *
  have hne : front ≠ [] := by
    rintro rfl
    exact hchanged (String.toList_inj.1 hname.symm)
  obtain ⟨c, cs, hstripped⟩ : ∃ c cs, stripped.toList = c :: cs := by
    cases hs : stripped.toList with
    | nil => exact absurd (String.toList_eq_nil_iff.1 hs) hrest
    | cons c cs => exact ⟨c, cs, rfl⟩
  -- The name before numbering is `up ++ cs`, where `up` is the first character or its capital.
  obtain ⟨up, hup, hname'⟩ :
      ∃ up, (up = [c] ∨ up = Text.upperChar c) ∧ name'.toList = up ++ cs := by
    rcases hcapital with rfl | rfl
    · exact ⟨[c], .inl rfl, hstripped⟩
    · exact ⟨Text.upperChar c, .inr rfl, Text.toList_upperFirst_cons hstripped⟩
  rintro rfl
  rw [hstripped] at hname
  rcases hnumbered with heq | ⟨rest, heq⟩
  · -- Without a number the first character would have to bring the front back.
    have hfronts : up = front ++ [c] := by
      have := hname'.symm.trans ((congrArg String.toList heq).symm.trans hname)
      rwa [List.append_cons, List.append_cancel_right_eq] at this
    exact hne (eq_nil_of_capital_eq_append hup hfronts)
  · -- With a number there are more underscores than before the front came off.
    have hcounts := congrArg (List.count '_') (hname.symm.trans (congrArg String.toList heq))
    have hunderscores := count_underscore_le_capital hup
    simp only [String.toList_append, hname', List.count_append, List.count_cons,
      List.count_eq_zero_of_not_mem hfront] at hcounts hunderscores
    simp only [List.count_nil] at hunderscores
    have hone : ("_".toList).count '_' = 1 := by decide
    omega

end NamePrefix

namespace Tree

variable {free : List Field} {t u : Tree} {id : Nat}

lemma develops_rename (t : Tree) (id : Nat) (name : String) :
    t.Develops [.name] (t.edit id (.rename name)) :=
  develops_edit (show Edit.Fits (.rename name) _ from trivial)

lemma name_rename (h : id < t.size) (name : String) :
    ((t.edit id (.rename name)).decl id).name = name := by
  rw [decl_edit, if_pos ⟨rfl, h⟩]
  rfl

/-! ## Prefixes -/

/-- No development adds a class or a namespace, or moves one. -/
lemma classesInNamespaces_of_develops (hdev : t.Develops free u) (scope : Nat) :
    u.classesInNamespaces scope = t.classesInNamespaces scope := by
  induction scope using classesInNamespaces.induct t with
  | case1 scope ih =>
    have hinner : ∀ n ∈ t.childrenOfKind scope .namespaceScope,
        u.classesInNamespaces n = t.classesInNamespaces n := fun n hn => ih n hn
    rw [classesInNamespaces, classesInNamespaces]
    simp only [List.flatMap_subtype, List.unattach_attach,
      childrenOfKind_of_develops hdev (show Kind.namespaceScope ≠ .method by decide),
      childrenOfKind_of_develops hdev (show Kind.classType ≠ .method by decide)]
    rw [List.flatMap_def, List.flatMap_def, List.map_congr_left hinner]

lemma translationUnits_of_develops (hdev : t.Develops free u) :
    u.translationUnits = t.translationUnits := by
  refine List.Pairwise.eq_of_mem_iff (r := (· < ·)) (pairwise_lt_translationUnits u)
    (pairwise_lt_translationUnits t) fun id => ?_
  rw [mem_translationUnits_iff, mem_translationUnits_iff]
  constructor
  · rintro ⟨hid, hroot⟩
    have hlt := hdev.lt_size_of_kind_ne hid (by rw [kind_of_parent?_none hroot]; decide)
    exact ⟨hlt, (hdev.parent?_eq hlt).symm.trans hroot⟩
  · rintro ⟨hid, hroot⟩
    exact ⟨Nat.lt_of_lt_of_le hid hdev.size_le, (hdev.parent?_eq hid).trans hroot⟩

/-- The declarations that a prefix is taken off are the same after any development. -/
lemma prefixTargets_of_develops (hdev : t.Develops free u) :
    u.prefixTargets = t.prefixTargets := by
  simp only [prefixTargets, translationUnits_of_develops hdev,
    childrenOfKind_of_develops hdev (show Kind.function ≠ .method by decide),
    classesInNamespaces_of_develops hdev]

lemma lt_size_of_mem_classesInNamespaces {scope c : Nat} (h : c ∈ t.classesInNamespaces scope) :
    c < t.size := by
  induction scope using classesInNamespaces.induct t with
  | case1 scope ih =>
    rw [classesInNamespaces, List.mem_append] at h
    rcases h with h | h
    · obtain ⟨⟨n, hn⟩, -, hc⟩ := List.mem_flatMap.1 h
      exact ih n hn hc
    · exact lt_size_of_parent? (mem_childrenOfKind_iff.1 h).1

lemma lt_size_of_mem_prefixTargets (h : id ∈ t.prefixTargets) : id < t.size := by
  obtain ⟨unit, -, hid⟩ := List.mem_flatMap.1 h
  rcases List.mem_append.1 hid with hid | hid
  · exact lt_size_of_parent? (mem_childrenOfKind_iff.1 hid).1
  · exact lt_size_of_mem_classesInNamespaces hid

/-- Nothing is to be taken off the name of a declaration: it has been renamed, or it does not begin
with the prefix, or nothing would remain. -/
def Unprefixed (rule : NamePrefix) (d : Decl) : Prop :=
  d.name ≠ d.headerName ∨ rule.takeOff d.name = d.name ∨ rule.takeOff d.name = ""

/-- Either there is nothing to take off, or the declaration is renamed. -/
lemma takeOffPrefixOf_cases (rule : NamePrefix) (t : Tree) (id : Nat) :
    (Unprefixed rule (t.decl id) ∧ (takeOffPrefixOf rule t id).Idle t) ∨
      (¬ Unprefixed rule (t.decl id) ∧
        (takeOffPrefixOf rule t id).tree =
          t.edit id (.rename (rule.takeOff (t.decl id).name))) := by
  unfold takeOffPrefixOf Unprefixed
  dsimp only
  split
  · next hkept =>
    rw [Bool.or_eq_true, decide_eq_true_eq, decide_eq_true_eq] at hkept
    exact .inl ⟨hkept.imp_right .inl, Progress.idle_unchanged t⟩
  · next hkept =>
    rw [Bool.or_eq_true, decide_eq_true_eq, decide_eq_true_eq, not_or] at hkept
    split
    · next hempty => exact .inl ⟨.inr (.inr hempty), rfl, rfl⟩
    · next hrest => exact .inr ⟨by rintro (h | h | h) <;> simp_all, rfl⟩

lemma develops_takeOffPrefixOf (rule : NamePrefix) (t : Tree) (id : Nat) :
    t.Develops [.name] (takeOffPrefixOf rule t id).tree := by
  rcases takeOffPrefixOf_cases rule t id with ⟨-, hidle⟩ | ⟨-, htree⟩
  · rw [hidle.1]
    exact .refl _ t
  · rw [htree]
    exact develops_rename t id _

lemma size_takeOffPrefixOf (rule : NamePrefix) (t : Tree) (id : Nat) :
    (takeOffPrefixOf rule t id).tree.size = t.size := by
  rcases takeOffPrefixOf_cases rule t id with ⟨-, hidle⟩ | ⟨-, htree⟩
  · rw [hidle.1]
  · rw [htree, size_edit]

lemma develops_takeOffPrefix (t : Tree) (rule : NamePrefix) :
    t.Develops [.name] (t.takeOffPrefix rule).tree :=
  Progress.sweep_develops (develops_takeOffPrefixOf rule) _ t

lemma size_takeOffPrefix (t : Tree) (rule : NamePrefix) :
    (t.takeOffPrefix rule).tree.size = t.size :=
  Progress.size_sweep (size_takeOffPrefixOf rule) _ t

/-- Where no declaration has the prefix, or a name it may lose, nothing happens. -/
lemma takeOffPrefix_idle {rule : NamePrefix}
    (h : ∀ id ∈ t.prefixTargets, Unprefixed rule (t.decl id)) : (t.takeOffPrefix rule).Idle t := by
  refine Progress.sweep_idle fun id hid => ?_
  rcases takeOffPrefixOf_cases rule t id with ⟨-, hidle⟩ | ⟨hnot, -⟩
  · exact hidle
  · exact absurd (h id hid) hnot

/-- A name that has lost the prefix is no longer that of the header, so it will lose nothing more.
-/
lemma unprefixed_takeOffPrefixOf {rule : NamePrefix} (h : id < t.size) :
    Unprefixed rule ((takeOffPrefixOf rule t id).tree.decl id) := by
  rcases takeOffPrefixOf_cases rule t id with ⟨hkept, hidle⟩ | ⟨hnot, htree⟩
  · rwa [hidle.1]
  · simp only [Unprefixed, not_or, not_not] at hnot
    rw [htree, decl_edit, if_pos ⟨rfl, h⟩]
    exact .inl fun hname => hnot.2.1 (hname.trans hnot.1.symm)

/-- Taking the prefix off one name gives it to no other. -/
lemma Unprefixed.of_takeOffPrefixOf {rule : NamePrefix} {i : Nat}
    (h : Unprefixed rule (t.decl i)) (id : Nat) :
    Unprefixed rule ((takeOffPrefixOf rule t id).tree.decl i) := by
  rcases takeOffPrefixOf_cases rule t id with ⟨-, hidle⟩ | ⟨hnot, htree⟩
  · rwa [hidle.1]
  · by_cases hi : id = i
    · exact absurd (hi ▸ h) hnot
    · rwa [htree, decl_edit, if_neg fun heq => hi heq.1]

/-- After the pass over them no declaration has a prefix to lose. -/
theorem unprefixed_takeOffPrefix (t : Tree) (rule : NamePrefix) :
    ∀ id ∈ t.prefixTargets, Unprefixed rule ((t.takeOffPrefix rule).tree.decl id) := by
  intro id hid
  have hdone : ∀ id ∈ t.prefixTargets, id < (t.takeOffPrefix rule).tree.size →
      Unprefixed rule ((t.takeOffPrefix rule).tree.decl id) :=
    Progress.sweep_establishes (Q := fun u id => id < u.size → Unprefixed rule (u.decl id))
      (fun u id hlt => unprefixed_takeOffPrefixOf (size_takeOffPrefixOf rule u id ▸ hlt))
      (fun u id i hi hlt => (hi (size_takeOffPrefixOf rule u id ▸ hlt)).of_takeOffPrefixOf id)
  refine hdone id hid ?_
  rw [size_takeOffPrefix]
  exact lt_size_of_mem_prefixTargets hid

/-- A name stays as it is, or it loses the prefix. -/
lemma name_takeOffPrefix (t : Tree) (rule : NamePrefix) (id : Nat) :
    ((t.takeOffPrefix rule).tree.decl id).name = (t.decl id).name ∨
      ¬ Unprefixed rule (t.decl id) ∧
        ((t.takeOffPrefix rule).tree.decl id).name = rule.takeOff (t.decl id).name := by
  have hinvariant : ((t.takeOffPrefix rule).tree.decl id) = t.decl id ∨
      ¬ Unprefixed rule (t.decl id) ∧ Unprefixed rule ((t.takeOffPrefix rule).tree.decl id) ∧
        ((t.takeOffPrefix rule).tree.decl id).name = rule.takeOff (t.decl id).name := by
    refine Progress.sweep_invariant (I := fun u => u.decl id = t.decl id ∨
      ¬ Unprefixed rule (t.decl id) ∧ Unprefixed rule (u.decl id) ∧
        (u.decl id).name = rule.takeOff (t.decl id).name) (fun i _ u hu => ?_) (.inl rfl)
    rcases takeOffPrefixOf_cases rule u i with ⟨-, hidle⟩ | ⟨hnot, htree⟩
    · rwa [hidle.1]
    · by_cases hi : i = id ∧ id < u.size
      · obtain ⟨rfl, hlt⟩ := hi
        rcases hu with hsame | ⟨-, hdone, -⟩
        · refine .inr ⟨hsame ▸ hnot, unprefixed_takeOffPrefixOf hlt, ?_⟩
          rw [htree, name_rename hlt, hsame]
        · exact absurd hdone hnot
      · rwa [htree, decl_edit, if_neg hi]
  rcases hinvariant with hsame | ⟨hnot, -, hname⟩
  · exact .inl (congrArg Decl.name hsame)
  · exact .inr ⟨hnot, hname⟩

/-! ## Given names -/

lemma develops_giveName (name : String) (t : Tree) (id : Nat) :
    t.Develops [.name] (giveName name t id).tree := by
  unfold giveName
  split
  · exact .refl _ t
  · exact develops_rename t id name

lemma develops_giveNames (t : Tree) (renames : List Renaming) :
    t.Develops [.name] (t.giveNames renames).tree := by
  induction renames generalizing t with
  | nil => exact .refl _ t
  | cons rename renames ih =>
    rw [giveNames]
    split
    · exact .refl _ t
    · rw [Outcome.tree_andThen_ofProgress]
      exact (Progress.sweep_develops (develops_giveName rename.name) _ t).trans (ih _)

lemma size_giveName (name : String) (t : Tree) (id : Nat) :
    (giveName name t id).tree.size = t.size := by
  unfold giveName
  split
  · rfl
  · exact size_edit t id _

lemma size_giveNames (t : Tree) (renames : List Renaming) :
    (t.giveNames renames).tree.size = t.size := by
  induction renames generalizing t with
  | nil => rfl
  | cons rename renames ih =>
    rw [giveNames]
    split
    · rfl
    · rw [Outcome.tree_andThen_ofProgress, ih, Progress.size_sweep (size_giveName rename.name)]

/-! ## Capitals -/

/-- The kind of a declaration is among those whose names begin with a capital. -/
def Targeted (targets : List CapitalTarget) (d : Decl) : Prop :=
  targets.any (fun target => target.kind = d.kind) = true

/-- Either the name begins with a capital already, or its kind is not meant, or the declaration is
renamed. -/
lemma capitaliseOne_cases (targets : List CapitalTarget) (t : Tree) (id : Nat) :
    ((Targeted targets (t.decl id) → Text.upperFirst (t.decl id).name = (t.decl id).name) ∧
        (capitaliseOne targets t id).Idle t) ∨
      (Targeted targets (t.decl id) ∧ (capitaliseOne targets t id).tree =
        t.edit id (.rename (Text.upperFirst (t.decl id).name))) := by
  unfold capitaliseOne
  dsimp only
  split
  · next htargeted =>
    by_cases hcapital : (t.decl id).name = Text.upperFirst (t.decl id).name
    · refine .inl ⟨fun _ => hcapital.symm, ?_⟩
      rw [giveName, if_pos hcapital]
      exact Progress.idle_unchanged t
    · refine .inr ⟨htargeted, ?_⟩
      rw [giveName, if_neg hcapital]
      rfl
  · next htargeted =>
    exact .inl ⟨fun h => absurd h htargeted, Progress.idle_unchanged t⟩

lemma develops_capitaliseOne (targets : List CapitalTarget) (t : Tree) (id : Nat) :
    t.Develops [.name] (capitaliseOne targets t id).tree := by
  rcases capitaliseOne_cases targets t id with ⟨-, hidle⟩ | ⟨-, htree⟩
  · rw [hidle.1]
    exact .refl _ t
  · rw [htree]
    exact develops_rename t id _

lemma size_capitaliseOne (targets : List CapitalTarget) (t : Tree) (id : Nat) :
    (capitaliseOne targets t id).tree.size = t.size := by
  rcases capitaliseOne_cases targets t id with ⟨-, hidle⟩ | ⟨-, htree⟩
  · rw [hidle.1]
  · rw [htree, size_edit]

lemma develops_capitalise (t : Tree) (targets : List CapitalTarget) :
    t.Develops [.name] (t.capitalise targets).tree :=
  Progress.sweep_develops (develops_capitaliseOne targets) _ t

lemma size_capitalise (t : Tree) (targets : List CapitalTarget) :
    (t.capitalise targets).tree.size = t.size :=
  Progress.size_sweep (size_capitaliseOne targets) _ t

/-- A declaration whose name is to begin with a capital has such a name. -/
def Capital (targets : List CapitalTarget) (d : Decl) : Prop :=
  Targeted targets d → Text.upperFirst d.name = d.name

/-- Making the first letter a capital again has no effect. -/
lemma capital_capitaliseOne (targets : List CapitalTarget) (t : Tree) (id : Nat) :
    Capital targets ((capitaliseOne targets t id).tree.decl id) := by
  rcases capitaliseOne_cases targets t id with ⟨hcapital, hidle⟩ | ⟨htargeted, htree⟩
  · rwa [hidle.1]
  · intro _
    rw [htree, decl_edit]
    split
    · exact Text.upperFirst_upperFirst _
    · next hout =>
      have hid : t.size ≤ id := by
        by_contra hlt
        exact hout ⟨rfl, by omega⟩
      rw [decl_of_size_le hid]
      exact Text.upperFirst_empty

lemma Capital.of_capitaliseOne {targets : List CapitalTarget} {i : Nat}
    (h : Capital targets (t.decl i)) (id : Nat) :
    Capital targets ((capitaliseOne targets t id).tree.decl i) := by
  by_cases hi : id = i
  · rw [← hi]
    exact capital_capitaliseOne targets t id
  · rcases capitaliseOne_cases targets t id with ⟨-, hidle⟩ | ⟨-, htree⟩
    · rwa [hidle.1]
    · rwa [htree, decl_edit, if_neg fun heq => hi heq.1]

/-- All targeted names begin with a capital. -/
theorem capital_capitalise (t : Tree) (targets : List CapitalTarget) {id : Nat} (h : id < t.size) :
    Capital targets ((t.capitalise targets).tree.decl id) :=
  Progress.sweep_establishes (Q := fun u id => Capital targets (u.decl id))
    (capital_capitaliseOne targets) (fun _ id _ hi => hi.of_capitaliseOne id) id (mem_walk_iff.2 h)

/-- Where all names that should begin with a capital do, nothing happens. -/
lemma capitalise_idle {targets : List CapitalTarget}
    (h : ∀ id < t.size, Capital targets (t.decl id)) : (t.capitalise targets).Idle t := by
  refine Progress.sweep_idle fun id hid => ?_
  unfold capitaliseOne
  dsimp only
  split
  · next htargeted =>
    rw [giveName, if_pos (h id (mem_walk_iff.1 hid) htargeted).symm]
    exact Progress.idle_unchanged t
  · exact Progress.idle_unchanged t

/-- A name stays as it is, or it gets a capital. -/
lemma name_capitalise (t : Tree) (targets : List CapitalTarget) (id : Nat) :
    ((t.capitalise targets).tree.decl id).name = (t.decl id).name ∨
      ((t.capitalise targets).tree.decl id).name = Text.upperFirst (t.decl id).name := by
  refine Progress.sweep_invariant (I := fun u => (u.decl id).name = (t.decl id).name ∨
    (u.decl id).name = Text.upperFirst (t.decl id).name) (fun i _ u hu => ?_) (.inl rfl)
  rcases capitaliseOne_cases targets u i with ⟨-, hidle⟩ | ⟨-, htree⟩
  · rwa [hidle.1]
  · by_cases hi : i = id ∧ id < u.size
    · obtain ⟨rfl, hlt⟩ := hi
      rw [htree, name_rename hlt]
      rcases hu with hu | hu
      · exact .inr (congrArg Text.upperFirst hu)
      · rw [hu]
        exact .inr (Text.upperFirst_upperFirst _)
    · rwa [htree, decl_edit, if_neg hi]

/-! ## All three -/

lemma develops_normaliseNames (t : Tree) (rule : NamePrefix) (renames : List Renaming)
    (targets : List CapitalTarget) :
    t.Develops [.name] (t.normaliseNames rule renames targets).tree := by
  unfold normaliseNames
  refine Outcome.develops_andThen (Outcome.develops_andThen ?_ fun u => ?_) fun u => ?_
  · exact develops_takeOffPrefix t rule
  · exact develops_giveNames u renames
  · exact develops_capitalise u targets

lemma size_normaliseNames (t : Tree) (rule : NamePrefix) (renames : List Renaming)
    (targets : List CapitalTarget) :
    (t.normaliseNames rule renames targets).tree.size = t.size := by
  unfold normaliseNames
  refine Outcome.andThen_invariant (I := fun u => u.size = t.size)
    (Outcome.andThen_invariant (I := fun u => u.size = t.size) ?_ fun u hu => ?_) fun u hu => ?_
  · exact size_takeOffPrefix t rule
  · rw [size_giveNames, hu]
  · rw [Outcome.tree_ofProgress, size_capitalise, hu]

/-- Only a renaming can fail, and capitals come after the last one. -/
lemma normaliseNames_cases (t : Tree) (rule : NamePrefix) (renames : List Renaming)
    (targets : List CapitalTarget) :
    (∃ n k, ((t.takeOffPrefix rule).tree.giveNames renames).result = .ok n ∧
      (t.normaliseNames rule renames targets).result = .ok k ∧
      (t.normaliseNames rule renames targets).tree =
        (((t.takeOffPrefix rule).tree.giveNames renames).tree.capitalise targets).tree) ∨
    ∃ e, ((t.takeOffPrefix rule).tree.giveNames renames).result = .error e ∧
      (t.normaliseNames rule renames targets).result = .error e ∧
      (t.normaliseNames rule renames targets).tree =
        ((t.takeOffPrefix rule).tree.giveNames renames).tree := by
  have hstripped : (Outcome.ofProgress (t.takeOffPrefix rule) : Outcome PassError).result =
      .ok (t.takeOffPrefix rule).changes := rfl
  rw [normaliseNames, Outcome.andThen_of_ok hstripped, Outcome.tree_ofProgress]
  cases hnames : ((t.takeOffPrefix rule).tree.giveNames renames).result with
  | ok n =>
    rw [Outcome.andThen_of_ok rfl]
    exact .inl ⟨n, _, rfl, rfl, rfl⟩
  | error e =>
    rw [Outcome.andThen_of_error rfl]
    exact .inr ⟨e, rfl, rfl, rfl⟩

/-- Without renamings, normalising is taking off the prefix and then capitalising. -/
lemma normaliseNames_nil (t : Tree) (rule : NamePrefix) (targets : List CapitalTarget) :
    (t.normaliseNames rule [] targets).tree =
      ((t.takeOffPrefix rule).tree.capitalise targets).tree := by
  rcases normaliseNames_cases t rule [] targets with ⟨n, k, -, -, htree⟩ | ⟨e, he, -⟩
  · exact htree
  · exact absurd he (by simp [giveNames, Outcome.unchanged])

end Tree

end Bindery
