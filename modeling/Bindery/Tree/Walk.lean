import Bindery.Tree.Basic

/-!
# Walking the tree

Downwards, `descendants` lists what lies below a declaration and `walk` the whole tree, parents
before their children and siblings in order.  Upwards, `lineage` lists a declaration and everything
around it, innermost first; its qualified name and its visibility depend on the lineage alone.

Both directions end because a parent comes before its children in the order of insertion.
-/

namespace Bindery.Tree

/-! ## Downwards -/

/-- A declaration and everything below it. -/
def subtree (t : Tree) (id : Nat) : List Nat :=
  id :: (t.children id).attach.flatMap fun ⟨c, _⟩ => t.subtree c
termination_by t.size - id
decreasing_by
  have := mem_children ‹_›
  omega

/-- Everything below a declaration, parents before their children. -/
def descendants (t : Tree) (id : Nat) : List Nat := (t.children id).flatMap t.subtree

/-- Every declaration of the tree, parents before their children, by translation unit. -/
def walk (t : Tree) : List Nat := t.translationUnits.flatMap t.subtree

theorem subtree_eq (t : Tree) (id : Nat) : t.subtree id = id :: t.descendants id := by
  rw [subtree, descendants]
  simp [List.flatMap_subtype]

/-! ## Upwards -/

/-- A declaration and everything it lies in, innermost first. -/
def lineage (t : Tree) (id : Nat) : List Nat :=
  match _h : t.parent? id with
  | some p => id :: t.lineage p
  | none => [id]
termination_by id
decreasing_by exact parent?_lt _h

/-- The name of a declaration after the names of the namespaces and classes around it. -/
def qualifiedName (t : Tree) (id : Nat) : String :=
  let scopes := (t.lineage id).filter fun i => (t.decl i).kind ≠ .translationUnit
  String.intercalate "::" (scopes.reverse.map fun i => (t.decl i).name)

/-- Whether a declaration lies directly in a translation unit or namespace. -/
def inNamespaceScope (t : Tree) (id : Nat) : Bool :=
  (t.parent? id).any fun p => (t.decl p).kind.isNamespaceScope

/-- Whether a declaration is part of the public interface: neither it nor anything around it is
hidden or restricted. -/
def isVisible (t : Tree) (id : Nat) : Bool := (t.lineage id).all fun i => (t.decl i).isExposed

theorem mem_lineage_self (t : Tree) (id : Nat) : id ∈ t.lineage id := by
  rw [lineage]
  split <;> simp

theorem lineage_of_parent? {t : Tree} {id p : Nat} (h : t.parent? id = some p) :
    t.lineage id = id :: t.lineage p := by
  rw [lineage]
  split
  · next q hq => rw [h] at hq; rw [Option.some.inj hq]
  · next hn => rw [h] at hn; simp at hn

theorem lineage_of_parent?_none {t : Tree} {id : Nat} (h : t.parent? id = none) :
    t.lineage id = [id] := by
  rw [lineage]
  split
  · next q hq => rw [h] at hq; simp at hq
  · rfl

end Bindery.Tree
