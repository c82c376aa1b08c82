import Bindery.Pass.Error
import Bindery.Progress
import Bindery.Text.Replace
import Bindery.Tree.Typedefs

/-!
# Methods out of free functions

A function outside of classes whose first argument is a class, or a pointer or reference to one,
reads better as a method of that class.  Such a function gets a method under an identifier of its
own, with the first argument as receiver; the function stays in the tree but is kept out of the
output.
-/

namespace Bindery

namespace Usr

/-- The identifier of the method that is made of a function. -/
def promoted (usr : Usr) : Usr := ⟨usr.text ++ "#instance"⟩

end Usr

/-- A method and the class it is to be added to. -/
structure Promotion where
  target : Nat
  method : Decl

namespace Promotion

/-- A name without the class name and underscore in front of it, if something remains. -/
def withoutClassName (className name : String) : String :=
  match Text.after? (className ++ "_").toList name.toList with
  | some (c :: cs) => String.ofList (c :: cs)
  | _ => name

/-- The declaration of a method made of a function. -/
def declOf (function : Decl) (name : String) (method : Method) : Decl :=
  ⟨function.usr.promoted, name, function.headerName, false, .isPublic, .method method⟩

end Promotion

namespace Tree

/-- Whether a declaration is a function outside of classes that is not kept out. -/
def isFreeFunction (t : Tree) (id : Nat) : Bool :=
  (t.decl id).kind = .function && !(t.decl id).ignored && t.inNamespaceScope id

/-- The class that a function can be made a method of: that of its first argument, if it has a
definition and is not kept out. -/
def promotionTarget? (t : Tree) (signature : Signature) : Logged (Option Nat) :=
  match signature.arguments with
  | [] => return none
  | first :: _ => do
    let target? ← t.classBehind first.type
    return target?.filter fun c => !(t.decl c).ignored && (t.decl c).isCompleteClass

/-- The method a function becomes in a class, unless there is such a method already. -/
def promotedTo? (t : Tree) (stripClassPrefix : Bool) (function : Decl) (target : Nat) :
    Option Promotion := do
  let signature ← function.signature?
  guard ((t.get? function.usr.promoted).isNone)
  let method ← Method.ofFunction? signature function.usr
  let name :=
    if stripClassPrefix then
      Promotion.withoutClassName (t.decl target).headerName function.name
    else function.name
  return ⟨target, Promotion.declOf function name method⟩

/-- What becomes of a function. -/
def promotion? (t : Tree) (stripClassPrefix : Bool) (id : Nat) : Logged (Option Promotion) :=
  match (t.decl id).signature? with
  | none => return none
  | some signature => do
    let target? ← t.promotionTarget? signature
    return target?.bind (t.promotedTo? stripClassPrefix (t.decl id))

/-- Makes a method of a function where that is possible. -/
def promoteOne (stripClassPrefix : Bool) (t : Tree) (id : Nat) : Outcome PassError :=
  let found := t.promotion? stripClassPrefix id
  match found.value with
  | none => ⟨t, found.log, .ok 0⟩
  | some promotion =>
    match t.insert (some promotion.target) promotion.method with
    | .error e => ⟨t, found.log, .error (.tree e)⟩
    | .ok grown => ⟨grown.edit id .ignore, found.log, .ok 1⟩

/-- Makes methods of all free functions for which that is possible. -/
def promoteFunctions (t : Tree) (stripClassPrefix : Bool) : Outcome PassError :=
  Outcome.sweep (promoteOne stripClassPrefix) (t.walk.filter t.isFreeFunction) t

end Tree

end Bindery
