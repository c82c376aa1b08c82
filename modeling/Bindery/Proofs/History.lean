import Bindery.Proofs.Changes
import Bindery.Proofs.Tree.Arena

/-!
# Every tree that can come about

A history is a list of commands: additions, which may be refused, edits, and everything that works
on a whole tree.  `Tree.after` is the tree it leads to from the empty one.

* `Tree.exists_history`: every tree comes about in this way, so what holds of all trees is what
  holds of all trees that can be reached.
* `Tree.changesOf` has the additions and edits that a command comes down to; they lead where the
  command does (`Tree.changed_changesOf`).
* `Tree.consistent_after`: after any history the views of the tree agree with each other, and with
  tables that are updated by additions alone and follow every command.
-/

namespace Bindery

/-- Something that can be done to a tree. -/
inductive Command where
  | insert (parent : Option Nat) (decl : Decl)
  | edit (id : Nat) (edit : Edit)
  /-- Gives one argument of a function or method a default value, or takes it away. -/
  | setDefault (id index : Nat) (value : Option String)
  | suppress (selectors : List Selector)
  | normalise (rule : NamePrefix) (renames : List Renaming) (targets : List CapitalTarget)
  | runPass (pass : Pass)
  | applyPasses (passes : List Pass)
  | process (config : Config)

namespace Tree

/-- The tree after a command, as far as the command got. -/
def perform (t : Tree) : Command → Tree
  | .insert parent decl => t.change (.insert parent decl)
  | .edit id edit => t.change (.edit id edit)
  | .setDefault id index value =>
    match (t.decl id).signature? with
    | some s => t.edit id (.setDefaults (s.defaults.set index value))
    | none => t
  | .suppress selectors => (t.suppress selectors).tree
  | .normalise rule renames targets => (t.normaliseNames rule renames targets).tree
  | .runPass pass => (pass.run t).tree
  | .applyPasses passes => (t.applyPasses passes).tree
  | .process config => (config.process t).tree

/-- The tree that a history leads to. -/
def after (history : List Command) : Tree := history.foldl perform empty

lemma after_append (history : List Command) (command : Command) :
    after (history ++ [command]) = (after history).perform command := by
  rw [after, List.foldl_append]
  rfl

/-! ## Commands are changes -/

/-- The additions and edits that a command comes down to. -/
def changesOf (t : Tree) : Command → List Change
  | .insert parent decl => [.insert parent decl]
  | .edit id edit => [.edit id edit]
  | .setDefault id index value =>
    match (t.decl id).signature? with
    | some s => [.edit id (.setDefaults (s.defaults.set index value))]
    | none => []
  | .suppress selectors => Changes.suppress t selectors
  | .normalise rule renames targets => Changes.normaliseNames t rule renames targets
  | .runPass pass => Changes.ofPass pass t
  | .applyPasses passes => Changes.applyPasses t passes
  | .process config => Changes.process config t

/-- The additions and edits that a history comes down to, those of each command told from the tree
it finds. -/
def changesAlong (t : Tree) : List Command → List Change
  | [] => []
  | command :: history => t.changesOf command ++ changesAlong (t.perform command) history

/-- Making the changes of a command leads where the command does. -/
theorem changed_changesOf (t : Tree) (command : Command) :
    t.changed (t.changesOf command) = t.perform command := by
  cases command with
  | insert parent decl => rfl
  | edit id edit => rfl
  | setDefault id index value =>
    rw [changesOf, perform]
    cases (t.decl id).signature? <;> rfl
  | suppress selectors => exact Changes.changed_suppress t selectors
  | normalise rule renames targets => exact Changes.changed_normaliseNames t rule renames targets
  | runPass pass => exact Changes.changed_ofPass pass t
  | applyPasses passes => exact Changes.changed_applyPasses t passes
  | process config => exact Changes.changed_process config t

/-- Making the changes of a history leads where the history does. -/
lemma changed_changesAlong (t : Tree) (history : List Command) :
    t.changed (t.changesAlong history) = history.foldl perform t := by
  induction history generalizing t with
  | nil => rfl
  | cons command history ih =>
    rw [changesAlong, changed_append, changed_changesOf, ih, List.foldl_cons]

/-! ## Every tree has a history -/

/-- The first declarations of a tree can be added one by one. -/
lemma exists_history_of_le (t : Tree) {k : Nat} (h : k ≤ t.size) :
    ∃ history, (after history).size = k ∧
      ∀ id < k, (after history).parent? id = t.parent? id ∧
        (after history).decl id = t.decl id := by
  induction k with
  | zero => exact ⟨[], rfl, fun id hid => absurd hid (Nat.not_lt_zero id)⟩
  | succ k ih =>
    obtain ⟨history, hsize, hsame⟩ := ih (by omega)
    have hparent : ∀ p, t.parent? k = some p → p < k := fun p hp => parent?_lt hp
    have hplace : (after history).admits (t.parent? k) (t.decl k).kind = true := by
      refine admits_iff.2 ⟨fun p hp => hsize ▸ hparent p hp, ?_⟩
      have hstands := t.canContain_parent? (show k < t.size by omega)
      cases hp : t.parent? k with
      | none => rwa [hp] at hstands
      | some p =>
        rw [hp, Option.map_some] at hstands
        rwa [Option.map_some, (hsame p (hparent p hp)).2]
    have hfresh : (after history).get? (t.decl k).usr = none := by
      refine get?_eq_none_iff.2 fun id hid husr => ?_
      rw [hsize] at hid
      rw [(hsame id hid).2] at husr
      have := eq_of_usr_eq (show id < t.size by omega) (show k < t.size by omega) husr
      omega
    obtain ⟨u, hu⟩ := exists_insert_eq_ok hplace hfresh
    refine ⟨history ++ [.insert (t.parent? k) (t.decl k)], ?_⟩
    rw [after_append, perform, change_insert_of_ok hu, size_of_insert hu, hsize]
    refine ⟨rfl, fun id hid => ?_⟩
    rw [parent?_of_insert hu, decl_of_insert hu, hsize]
    by_cases hk : id = k
    · rw [if_pos hk, if_pos hk, hk]
      exact ⟨rfl, rfl⟩
    · rw [if_neg hk, if_neg hk]
      exact hsame id (by omega)

/-- Every tree can be reached from the empty one. -/
theorem exists_history (t : Tree) : ∃ history, after history = t := by
  obtain ⟨history, hsize, hsame⟩ := exists_history_of_le t (Nat.le_refl t.size)
  exact ⟨history, ext_reads hsize (fun id hid => (hsame id hid).1) fun id hid => (hsame id hid).2⟩

/-! ## Consistency -/

/-- The views of a tree agree with each other. -/
structure Consistent (t : Tree) : Prop where
  get?_iff : ∀ usr id, t.get? usr = some id ↔ id < t.size ∧ (t.decl id).usr = usr
  usr_injective : ∀ i < t.size, ∀ j < t.size, (t.decl i).usr = (t.decl j).usr → i = j
  /-- A parent comes before its child and may contain it. -/
  parent_fits : ∀ id p, t.parent? id = some p →
    p < id ∧ id < t.size ∧ Kind.canContain (some (t.decl p).kind) (t.decl id).kind = true
  /-- A declaration with a parent is listed once among all children, namely those of the parent. -/
  listed_once : ∀ id p, t.parent? id = some p →
    (t.children p).count id = 1 ∧ ∀ q, q ≠ p → (t.children q).count id = 0
  children_linked : ∀ id p, id ∈ t.children p → t.parent? id = some p
  units_iff : ∀ id, id ∈ t.translationUnits ↔ id < t.size ∧ t.parent? id = none
  units_kind : ∀ id ∈ t.translationUnits, (t.decl id).kind = .translationUnit
  units_ascending : t.translationUnits.Pairwise (· < ·)
  declaredAs_iff : ∀ name id, id ∈ t.declaredAs name ↔ id < t.size ∧ (t.decl id).headerName = name
  declaredAs_ascending : ∀ name, (t.declaredAs name).Pairwise (· < ·)

lemma consistent (t : Tree) : t.Consistent where
  get?_iff _ _ := get?_eq_some_iff
  usr_injective _ hi _ hj := eq_of_usr_eq hi hj
  parent_fits id p hp := by
    have hid := lt_size_of_parent? hp
    have hstands := t.canContain_parent? hid
    rw [hp, Option.map_some] at hstands
    exact ⟨parent?_lt hp, hid, hstands⟩
  listed_once id p hp := by
    refine ⟨List.count_eq_one_of_mem (nodup_children t p) (mem_children_iff.2 hp), fun q hq => ?_⟩
    rw [List.count_eq_zero, mem_children_iff, hp]
    exact fun heq => hq (Option.some.inj heq).symm
  children_linked _ _ := mem_children_iff.1
  units_iff _ := mem_translationUnits_iff
  units_kind _ hid := kind_of_parent?_none (mem_translationUnits_iff.1 hid).2
  units_ascending := pairwise_lt_translationUnits t
  declaredAs_iff _ _ := mem_declaredAs_iff
  declaredAs_ascending := pairwise_lt_declaredAs t

/-- After any history the views of the tree agree, and an addition that is refused changes nothing.
Tables that every addition updates and no edit touches hold the answers of the tree: the changes of
the history, made to empty tables, lead to them, and the changes of every further command keep them
right. -/
theorem consistent_after (history : List Command) :
    (after history).Consistent ∧
      (∀ parent decl e, (after history).insert parent decl = .error e →
        after (history ++ [.insert parent decl]) = after history) ∧
      (empty.changed (empty.changesAlong history) = after history ∧
        Arena.empty.changed (empty.changesAlong history) = Arena.ofTree (after history)) ∧
      ∀ command,
        (after history).changed ((after history).changesOf command) =
          after (history ++ [command]) ∧
        (Arena.ofTree (after history)).changed ((after history).changesOf command) =
          Arena.ofTree (after (history ++ [command])) := by
  refine ⟨consistent _, fun parent decl e h => ?_, ⟨?_, ?_⟩, fun command => ⟨?_, ?_⟩⟩
  · rw [after_append, perform, change, h]
  · exact changed_changesAlong empty history
  · rw [← Arena.ofTree_empty, Arena.changed_ofTree, changed_changesAlong, after]
  · rw [after_append, changed_changesOf]
  · rw [after_append, Arena.changed_ofTree, changed_changesOf]

end Tree

end Bindery
