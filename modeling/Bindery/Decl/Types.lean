/-!
# Types of declarations

A type as a header spells it.  A `QualType` is a chain of pointers and references that ends in a
named type: a builtin one, a declaration of the tree, or a spelling nothing is known about.  Every
link of the chain has a spelling and a `const` of its own.

Two types are equal when all of this is equal; `display` shows the outermost link only.
-/

namespace Bindery

/-- The stable identifier of a declaration. -/
structure Usr where
  text : String
  deriving DecidableEq, Repr, Inhabited

namespace Usr

/-- Whether the identifier is the empty one. -/
def isEmpty (usr : Usr) : Bool := usr.text = ""

end Usr

/-- What a type names when it is neither a pointer nor a reference. -/
inductive TypeName where
  | builtin (name : String)
  /-- The class, enum or typedef declared under an identifier. -/
  | declared (usr : Usr)
  | unknown (spelling : String)
  deriving DecidableEq, Repr

/-- The two ways of referring to a value of another type. -/
inductive Indirection where
  | pointer
  | reference
  deriving DecidableEq, Repr

/-- A type with its spelling and qualifier. -/
inductive QualType where
  | named (spelling : String) (isConst : Bool) (name : TypeName)
  | indirect (spelling : String) (isConst : Bool) (by_ : Indirection) (target : QualType)
  deriving DecidableEq, Repr

namespace QualType

/-- The type as the header spells it, without the outermost `const`. -/
def spelling : QualType → String
  | .named spelling .. => spelling
  | .indirect spelling .. => spelling

/-- Whether the outermost link is `const`. -/
def isConst : QualType → Bool
  | .named _ isConst _ => isConst
  | .indirect _ isConst .. => isConst

/-- The spelling with its qualifier. -/
def display (type : QualType) : String :=
  type.spelling ++ if type.isConst then " const" else ""

/-- The type pointed or referred to. -/
def pointee? : QualType → Option QualType
  | .named .. => none
  | .indirect _ _ _ target => some target

/-- The identifier the type names directly, through no pointer or reference. -/
def declared? : QualType → Option Usr
  | .named _ _ (.declared usr) => some usr
  | _ => none

/-- A builtin type under its own name. -/
def builtin (name : String) : QualType := .named name false (.builtin name)

/-- The type without values. -/
def void : QualType := builtin "void"

instance : Inhabited QualType := ⟨void⟩

/-- A pointer to a type, spelled with a star. -/
def pointerTo (target : QualType) : QualType :=
  .indirect (target.spelling ++ "*") false .pointer target

/-- Whether this is the type without values, under any spelling. -/
def isVoid : QualType → Bool
  | .named _ _ (.builtin name) => name = "void"
  | _ => false

/-- Whether the chain ends in a builtin type. -/
def isBuiltin : QualType → Bool
  | .named _ _ (.builtin _) => true
  | .named .. => false
  | .indirect _ _ _ target => target.isBuiltin

/-- The declarations the type names, at any depth.  A chain ends in one name, so there is at most
one. -/
def references : QualType → List Usr
  | .named _ _ (.declared usr) => [usr]
  | .named .. => []
  | .indirect _ _ _ target => target.references

end QualType

end Bindery
