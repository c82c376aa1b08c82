import Bindery.Json.Decoder
import Bindery.Pass.Error
import Bindery.Progress
import Bindery.Tree.Lookup

/-!
# Selecting declarations to keep out

A selector picks declarations by the names in the header: all those of a name outside of classes,
or one property of a class.  Suppressing them is all or nothing: every selector is resolved before
the first declaration is marked, so a selector that picks nothing leaves the tree as it is.
-/

namespace Bindery

open Json

/-- Which declarations to keep out. -/
inductive Selector where
  /-- Every declaration of this name in a translation unit or namespace. -/
  | global (name : String)
  /-- One property of the class of this name that has a definition. -/
  | property (className propertyName : String)
  deriving DecidableEq, Repr

namespace Selector

/-- The selector as text. -/
def display : Selector → String
  | .global name => name
  | .property className propertyName => className ++ "::" ++ propertyName

/-! ## Documents -/

/-- The document of a selector. -/
def toJson : Selector → Json
  | .global name => record [("select", Json.text "global"), ("name", Json.text name)]
  | .property className propertyName =>
    record [("select", Json.text "property"), ("class", Json.text className),
      ("property", Json.text propertyName)]

/-- Reads a selector. -/
def ofJson? (budget : Nat) (v : Json) : Option Selector := do
  let (name, rest) ← asTagged? "select" budget v
  match name with
  | "global" => do
    let fields ← fieldsOf? ["name"] rest
    return .global (← fields.required? "name" asText?)
  | "property" => do
    let fields ← fieldsOf? ["class", "property"] rest
    return .property (← fields.required? "class" asText?) (← fields.required? "property" asText?)
  | _ => none

end Selector

namespace Tree

/-! ## Resolving selectors -/

/-- The declarations a selector picks. -/
def select (t : Tree) : Selector → Logged (Except PassError (List Nat))
  | .global name =>
    match (t.declaredAs name).filter t.inNamespaceScope with
    | [] => do
      Logged.error ("Could not find global declaration \"" ++ name ++ "\" to ignore")
      return .error (.declarationNotFound name)
    | ids => return .ok ids
  | .property className propertyName => do
    match ← t.classNamed className with
    | .error cause => return .error (.classNotFound className cause)
    | .ok id =>
      match (t.childrenOfKind id .property).find? fun c => (t.decl c).headerName = propertyName with
      | some c => return .ok [c]
      | none => do
        Logged.error ("Class \"" ++ className ++ "\" has no property \"" ++ propertyName ++ "\"")
        return .error (.propertyNotFound className propertyName)

/-- The declarations a list of selectors picks, up to the first that picks none. -/
def selectAll (t : Tree) : List Selector → Logged (Except PassError (List Nat))
  | [] => return .ok []
  | selector :: selectors => do
    match ← t.select selector with
    | .error e => return .error e
    | .ok ids =>
      match ← t.selectAll selectors with
      | .error e => return .error e
      | .ok more => return .ok (ids ++ more)

/-! ## Suppressing -/

/-- Keeps a declaration out of the output; that is a change unless it is kept out already. -/
def ignoreOne (t : Tree) (id : Nat) : Progress :=
  if (t.decl id).ignored then .unchanged t else .edited t id .ignore []

/-- Keeps declarations out of the output. -/
def ignoreAll (t : Tree) (ids : List Nat) : Progress := Progress.sweep ignoreOne ids t

/-- Keeps out what has been selected, unless the selection failed. -/
def ignoreSelected (t : Tree) (selected : Logged (Except PassError (List Nat))) :
    Outcome PassError :=
  match selected.value with
  | .error e => ⟨t, selected.log, .error e⟩
  | .ok ids =>
    let p := t.ignoreAll ids
    ⟨p.tree, selected.log ++ p.log, .ok p.changes⟩

/-- Keeps out the declarations a selector picks. -/
def suppressOne (t : Tree) (selector : Selector) : Outcome PassError :=
  t.ignoreSelected (t.select selector)

/-- Keeps out the declarations that any of the selectors picks, or none if one of them fails. -/
def suppress (t : Tree) (selectors : List Selector) : Outcome PassError :=
  t.ignoreSelected (t.selectAll selectors)

end Tree

end Bindery
