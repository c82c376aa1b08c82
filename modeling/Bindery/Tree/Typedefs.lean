import Bindery.Log
import Bindery.Tree.Basic

/-!
# Looking through typedefs

A type that names a typedef stands for the typedef's underlying type, which may name a typedef
again.  Such a chain is followed at most `typedefLimit` steps; a type reached after that many steps
is taken as it is, with a warning, whether or not the chain would have ended there.  So a cyclic
chain does no harm.
-/

namespace Bindery.Tree

/-- The longest chain of typedefs that is followed. -/
def typedefLimit : Nat := 32

/-- The declaration a type names directly, if it is in the tree. -/
def declared? (t : Tree) (type : QualType) : Option Decl :=
  (type.declared?.bind t.get?).map t.decl

/-- The type that a type stands for when it names a typedef. -/
def typedefTarget? (t : Tree) (type : QualType) : Option QualType :=
  (t.declared? type).bind (·.underlying?)

/-- The type reached by at most `steps` steps through typedefs, and whether all of them were
used up. -/
def follow (t : Tree) : (steps : Nat) → QualType → QualType × Bool
  | 0, type => (type, true)
  | steps + 1, type =>
    match t.typedefTarget? type with
    | some next => t.follow steps next
    | none => (type, false)

/-- The type behind any typedefs that `type` names. -/
def behindTypedefs (t : Tree) (type : QualType) : Logged QualType :=
  match t.follow typedefLimit type with
  | (resolved, false) => return resolved
  | (resolved, true) => do
    Logged.warn ("Typedef chain from \"" ++ type.display ++
      "\" is too deep, treating it as cyclic")
    return resolved

/-- The class that a value, pointer or reference of a type refers to, behind typedefs. -/
def classBehind (t : Tree) (type : QualType) : Logged (Option Nat) := do
  let resolved ← t.behindTypedefs type
  let target ←
    match resolved.pointee? with
    | some pointee => t.behindTypedefs pointee
    | none => pure resolved
  return (target.declared?.bind t.get?).filter fun id => (t.decl id).kind = .classType

/-- Whether nothing is known about the values of a type: it is void, a class that was only
declared forward, or names nothing in the tree. -/
def isOpaque (t : Tree) (type : QualType) : Logged Bool := do
  let resolved ← t.behindTypedefs type
  return resolved.isVoid ||
    match resolved.declared? with
    | none => false
    | some usr =>
      match t.get? usr with
      | none => true
      | some id => (t.decl id).kind = .classType && !(t.decl id).isCompleteClass

end Bindery.Tree
