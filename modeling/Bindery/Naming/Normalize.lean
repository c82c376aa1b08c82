import Bindery.Naming.Rules
import Bindery.Pass.Error
import Bindery.Progress
import Bindery.Text.UpperCase
import Bindery.Tree.Lookup

/-!
# Normalising names

Taking a prefix off the names of functions and classes, giving names explicitly, and making names
begin with a capital, in this order.  The prefix comes off only while a declaration still has the
name of its header, so it is never taken off twice.
-/

namespace Bindery.Tree

/-! ## Prefixes -/

/-- The classes directly in a scope or in the namespaces inside it, those of the namespaces
first. -/
def classesInNamespaces (t : Tree) (scope : Nat) : List Nat :=
  (t.childrenOfKind scope .namespaceScope).attach.flatMap
      (fun ⟨n, _⟩ => t.classesInNamespaces n) ++
    t.childrenOfKind scope .classType
termination_by t.size - scope
decreasing_by
  have := mem_children (List.mem_filter.1 ‹n ∈ _›).1
  omega

/-- The declarations a prefix is taken off: in each translation unit the functions directly in it,
then the classes in it and its namespaces. -/
def prefixTargets (t : Tree) : List Nat :=
  t.translationUnits.flatMap fun unit =>
    t.childrenOfKind unit .function ++ t.classesInNamespaces unit

/-- Takes a prefix off the name of a declaration, unless it has been renamed or nothing would
remain. -/
def takeOffPrefixOf (rule : NamePrefix) (t : Tree) (id : Nat) : Progress :=
  let d := t.decl id
  let stripped := rule.takeOff d.name
  if d.name ≠ d.headerName || stripped = d.name then .unchanged t
  else if stripped = "" then
    ⟨t, 0, [⟨.warn, "Stripping the prefix from " ++ d.kind.label ++ " \"" ++ d.name ++
      "\" would leave it without a name, keeping it as is"⟩]⟩
  else .edited t id (.rename stripped) []

/-- Takes a prefix off the names of free functions and of classes. -/
def takeOffPrefix (t : Tree) (rule : NamePrefix) : Progress :=
  Progress.sweep (takeOffPrefixOf rule) t.prefixTargets t

/-! ## Given names -/

/-- Gives a declaration a name; that is a change unless it has the name already. -/
def giveName (name : String) (t : Tree) (id : Nat) : Progress :=
  if (t.decl id).name = name then .unchanged t else .edited t id (.rename name) []

/-- Gives names to declarations, one renaming after another, and stops at one that means no
declaration. -/
def giveNames (t : Tree) : List Renaming → Outcome PassError
  | [] => .unchanged t
  | rename :: renames =>
    match t.declaredAs rename.headerName with
    | [] =>
      ⟨t, [⟨.error, "Could not find declaration \"" ++ rename.headerName ++ "\" to rename"⟩],
        .error (.declarationNotFound rename.headerName)⟩
    | ids =>
      (Outcome.ofProgress (Progress.sweep (giveName rename.name) ids t)).andThen
        (·.giveNames renames)

/-! ## Capitals -/

/-- Makes the name of a declaration begin with a capital, if its kind is among the targets. -/
def capitaliseOne (targets : List CapitalTarget) (t : Tree) (id : Nat) : Progress :=
  let d := t.decl id
  if targets.any fun target => target.kind = d.kind then
    giveName (Text.upperFirst d.name) t id
  else .unchanged t

/-- Makes the names of all declarations of the targeted kinds begin with a capital. -/
def capitalise (t : Tree) (targets : List CapitalTarget) : Progress :=
  Progress.sweep (capitaliseOne targets) t.walk t

/-! ## All three -/

/-- Applies the naming rules in their fixed order. -/
def normaliseNames (t : Tree) (rule : NamePrefix) (renames : List Renaming)
    (targets : List CapitalTarget) : Outcome PassError :=
  ((Outcome.ofProgress (t.takeOffPrefix rule)).andThen (·.giveNames renames)).andThen
    fun t => .ofProgress (t.capitalise targets)

end Bindery.Tree
