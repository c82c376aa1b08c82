import Bindery.Progress
import Bindery.Tree.Typedefs

/-!
# Pointers to opaque handles

A typedef for a pointer to something opaque is a handle.  A property that points to a handle cannot
be expressed as a field of the wrapper: it is marked to be written by hand and kept out of the
output.  A property that is kept out already is marked all the same.
-/

namespace Bindery.Tree

/-- Whether a type points or refers to a typedef for a pointer to something opaque. -/
def pointsToHandle (t : Tree) (type : QualType) : Logged Bool :=
  match type.pointee? with
  | none => return false
  | some handle =>
    if (t.typedefTarget? handle).isNone then return false
    else do
      let resolved ← t.behindTypedefs handle
      match resolved.pointee? with
      | none => return false
      | some inner => t.isOpaque inner

/-- Whether a declaration is a property that points to a handle and is not marked so far. -/
def isUnmarkedHandle (t : Tree) (id : Nat) : Logged Bool :=
  match (t.decl id).payload with
  | .property type false => t.pointsToHandle type
  | _ => return false

/-- The type of a property as text. -/
def propertyTypeText (decl : Decl) : String :=
  match decl.payload with
  | .property type _ => type.display
  | _ => ""

/-- Marks a property to be written by hand and keeps it out. -/
def leaveToHand (t : Tree) (id : Nat) : Progress :=
  ⟨(t.edit id .requireManual).edit id .ignore, 1,
    [⟨.warn, "Property \"" ++ t.qualifiedName id ++ "\" of type " ++
      propertyTypeText (t.decl id) ++ " needs a manual implementation, ignoring it"⟩]⟩

/-- Marks and keeps out all properties that point to a handle. -/
def leaveHandlesToHand (t : Tree) : Progress :=
  let found := Logged.filter t.isUnmarkedHandle t.walk
  let marked := Progress.sweep leaveToHand found.value t
  { marked with log := found.log ++ marked.log }

end Bindery.Tree
