import Bindery.Progress
import Bindery.Text.Decimal

/-!
# Names that clash

Within a scope every declaration that is emitted needs a name of its own.  Overloads may share one
as long as their parameter types differ.  Where two declarations clash the earlier one keeps its
name, and the later one gets the least number that makes its name unlike all names of the scope.
-/

namespace Bindery

/-- A name in use, with the parameter types of the function or method it is used for. -/
structure NameUse where
  name : String
  overloadKey : Option String
  deriving DecidableEq, Repr

namespace NameUse

/-- The use a declaration makes of its name. -/
def ofDecl (decl : Decl) : NameUse := ⟨decl.name, decl.signature?.map (·.overloadKey)⟩

/-- Two uses of one name clash unless both are overloads, told apart by their parameters. -/
def clashes (a b : NameUse) : Bool :=
  a.name = b.name &&
    match a.overloadKey, b.overloadKey with
    | some k, some l => k = l
    | _, _ => true

end NameUse

/-- A name with a number behind it. -/
def numberedName (name : String) (k : Nat) : String := name ++ "_" ++ Text.Decimal.text k

/-- The name with the least number, from one on, that is not taken.  Among one more numbers than
there are names taken, one is free. -/
def freshName (taken : List String) (name : String) : String :=
  let numbered := (List.range' 1 (taken.length + 1)).map (numberedName name)
  (numbered.find? fun candidate => !taken.contains candidate).getD name

namespace Tree

/-- The declarations directly inside a scope that are not kept out. -/
def namedChildren (t : Tree) (scope : Nat) : List Nat :=
  (t.children scope).filter fun c => !(t.decl c).ignored

/-- Goes through the declarations of a scope in order.  `taken` are the names that no declaration
may be given, `uses` those that earlier declarations have. -/
def separateNames (taken : List String) (uses : List NameUse) : List Nat → Tree → Progress
  | [], t => .unchanged t
  | id :: ids, t =>
    let use := NameUse.ofDecl (t.decl id)
    if uses.any (·.clashes use) then
      let fresh := freshName taken use.name
      let warning := (t.decl id).kind.label ++ " \"" ++ t.qualifiedName id ++
        "\" clashes with an earlier declaration, renaming it to \"" ++ fresh ++ "\""
      (Progress.edited t id (.rename fresh) [⟨.warn, warning⟩]).andThen
        (separateNames (fresh :: taken) ({ use with name := fresh } :: uses) ids)
    else separateNames taken (use :: uses) ids t

/-- Gives the declarations of a scope names that do not clash. -/
def separateNamesIn (t : Tree) (scope : Nat) : Progress :=
  let ids := t.namedChildren scope
  separateNames (ids.map fun id => (t.decl id).name) [] ids t

/-- Gives all declarations names that do not clash with others of their scope. -/
def separateAllNames (t : Tree) : Progress :=
  Progress.sweep separateNamesIn (t.walk.filter fun id => !(t.children id).isEmpty) t

end Tree

end Bindery
