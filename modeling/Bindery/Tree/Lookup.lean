import Bindery.Log
import Bindery.Text.EditDistance
import Bindery.Tree.Walk

/-!
# Finding declarations by name

Look-ups go by the name in the header, so they do not depend on what has been renamed.  A class is
looked up by its definition; if it has none, the log names the classes spelled most alike.
-/

namespace Bindery.Tree

/-- The declarations whose name in the header is `name`, in order of insertion. -/
def declaredAs (t : Tree) (name : String) : List Nat :=
  t.ids.filter fun id => (t.decl id).headerName = name

/-- How many similar names are suggested for one that is not found. -/
def suggestionCount : Nat := 3

/-- The qualified names of the classes spelled most like `name`, most alike first.  Among equally
distant ones the earlier declaration goes first. -/
def similarClasses (t : Tree) (name : String) : List String :=
  let classes := t.ids.filter fun id => (t.decl id).kind = .classType
  let ranked := classes.map fun id =>
    (Text.editDistance (t.decl id).headerName name, t.qualifiedName id)
  let sorted := ranked.mergeSort fun a b => a.1 ≤ b.1
  (sorted.take suggestionCount).map (·.2)

/-- Writes a list of names, one a line. -/
def logNames : List String → Logged Unit
  | [] => pure ()
  | name :: names => do
    Logged.error ("  " ++ name)
    logNames names

/-- The one class with a definition whose name in the header is `name`. -/
def classNamed (t : Tree) (name : String) : Logged (Except TreeError Nat) :=
  match (t.declaredAs name).filter fun id => (t.decl id).isCompleteClass with
  | [id] => return .ok id
  | [] => do
    Logged.error ("Could not find a complete class named \"" ++ name ++ "\"")
    match t.similarClasses name with
    | [] => pure ()
    | names => do
      Logged.error "Did you mean one of:"
      logNames names
    return .error (.classNotFound name)
  | ids => do
    Logged.error ("Multiple complete definitions found for class \"" ++ name ++ "\":")
    logNames (ids.map t.qualifiedName)
    return .error (.multipleMatches name)

end Bindery.Tree
