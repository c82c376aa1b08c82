import Bindery.Pass.InheritedDefaults

/-!
# Default values before required parameters

A default value can be used only if every later parameter has one too.  Any other is dropped, with
a warning.
-/

namespace Bindery

/-- The default values that every later parameter has one behind. -/
def trailingDefaults : List (Option String) → List (Option String)
  | [] => []
  | value :: rest => (if rest.all (·.isSome) then value else none) :: trailingDefaults rest

/-- The arguments whose default values cannot be used, with these values. -/
def unusableDefaults : List Argument → List (String × String)
  | [] => []
  | argument :: rest =>
    match argument.defaultValue with
    | some value =>
      if rest.all (·.hasDefault) then unusableDefaults rest
      else (argument.name, value) :: unusableDefaults rest
    | none => unusableDefaults rest

namespace Tree

/-- Drops the default values of a function or method that cannot be used; the warnings begin with
the last. -/
def dropDefaultsOf (t : Tree) (id : Nat) : Progress :=
  match (t.decl id).signature? with
  | none => .unchanged t
  | some signature =>
    let warnings := (unusableDefaults signature.arguments).reverse.map fun (name, value) =>
      (⟨.warn, t.qualifiedName id ++ ": dropping default value " ++ value ++ " of \"" ++ name ++
        "\" as a later parameter has none"⟩ : Message)
    let defaults := trailingDefaults signature.defaults
    ⟨t.edit id (.setDefaults defaults), differences signature.defaults defaults, warnings⟩

/-- Drops default values that cannot be used from all functions and methods that are not kept
out. -/
def dropDefaults (t : Tree) : Progress :=
  let callables := t.walk.filter fun id => (t.decl id).kind.isCallable && !(t.decl id).ignored
  Progress.sweep dropDefaultsOf callables t

end Tree

end Bindery
