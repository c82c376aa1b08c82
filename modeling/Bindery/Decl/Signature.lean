import Bindery.Decl.Types

/-!
# Signatures

What a function takes and returns, and what a method adds to that.  Two functions are told apart by
`overloadKey`, the list of their parameter types as text; an override is recognised by
`hasSameParameters`, which compares the types themselves.

`Method.ofFunction?` makes a method of a free function: its first argument becomes the receiver.
-/

namespace Bindery

/-- An argument of a function. -/
structure Argument where
  name : String
  type : QualType
  defaultValue : Option String
  deriving DecidableEq, Repr, Inhabited

namespace Argument

/-- The argument as it stands in a signature. -/
def display (argument : Argument) : String :=
  argument.name ++ ": " ++ argument.type.display ++
    match argument.defaultValue with
    | some value => " = " ++ value
    | none => ""

/-- The argument with another default value, or with none. -/
def withDefault (argument : Argument) (value : Option String) : Argument :=
  { argument with defaultValue := value }

/-- Whether a call may leave the argument out. -/
def hasDefault (argument : Argument) : Bool := argument.defaultValue.isSome

end Argument

/-- The signature of a function. -/
structure Signature where
  result : QualType
  arguments : List Argument
  isVariadic : Bool
  deriving DecidableEq, Repr, Inhabited

namespace Signature

/-- The types of the parameters, in order. -/
def parameterTypes (signature : Signature) : List QualType := signature.arguments.map (·.type)

/-- Whether two signatures take the same types in the same order. -/
def hasSameParameters (a b : Signature) : Bool := a.parameterTypes = b.parameterTypes

/-- The parameter types as text, by which overloads are told apart. -/
def overloadKey (signature : Signature) : String :=
  let types := String.intercalate ", " (signature.parameterTypes.map (·.display))
  if signature.isVariadic then "(" ++ types ++ ", ...)" else "(" ++ types ++ ")"

/-- The signature under a name; an open argument list ends in an ellipsis. -/
def display (signature : Signature) (name : String) : String :=
  let arguments := signature.arguments.map (·.display)
  let all := if signature.isVariadic then arguments ++ ["..."] else arguments
  name ++ "(" ++ String.intercalate ", " all ++ ") -> " ++ signature.result.display

/-- The declarations named by the result and by the parameters, in this order. -/
def references (signature : Signature) : List Usr :=
  signature.result.references ++ signature.parameterTypes.flatMap (·.references)

/-- The signature with new default values, one for each argument. -/
def withDefaults (signature : Signature) (defaults : List (Option String)) : Signature :=
  { signature with arguments := signature.arguments.zipWith Argument.withDefault defaults }

/-- The default value of the argument at a position. -/
def defaultAt? (signature : Signature) (index : Nat) : Option String :=
  signature.arguments[index]?.bind (·.defaultValue)

end Signature

/-- A method: a signature without the receiver, and what it is called on. -/
structure Method where
  signature : Signature
  isVirtual : Bool
  isStatic : Bool
  /-- The argument that became the instance, when the method was made from a free function. -/
  receiver : Option Argument
  /-- The free function the method was made from. -/
  promotedFrom : Option Usr
  deriving DecidableEq, Repr, Inhabited

namespace Method

/-- A method that is neither virtual nor static and was declared as a method. -/
def plain (signature : Signature) : Method := ⟨signature, false, false, none, none⟩

/-- The instance method a free function turns into when its first argument becomes the receiver.
A function without arguments has no such form. -/
def ofFunction? (signature : Signature) (usr : Usr) : Option Method :=
  match signature.arguments with
  | [] => none
  | receiver :: arguments =>
    some ⟨{ signature with arguments := arguments }, false, false, some receiver, some usr⟩

end Method

end Bindery
