import Bindery.Tree.Error

/-!
# What can go wrong while a tree is customised

The passes by kind, and the causes for which filtering, renaming or running passes fails.  An error
has a message of its own and the messages of the errors behind it, nearest first.
-/

namespace Bindery

/-- The structural passes. -/
inductive PassKind where
  | promoteFunctions
  | separateNames
  | classifyEnums
  | inheritDefaults
  | dropDefaults
  | publishNestedTypes
  | leaveHandlesToHand
  deriving DecidableEq, Repr

namespace PassKind

/-- The name of a pass in configurations and messages. -/
def name : PassKind → String
  | .promoteFunctions => "function_to_instance_method"
  | .separateNames => "check_duplicated_names"
  | .classifyEnums => "check_flag_enums"
  | .inheritDefaults => "fix_default_param_values_of_overrides"
  | .dropDefaults => "handle_default_param_values"
  | .publishNestedTypes => "make_protected_nested_types_public"
  | .leaveHandlesToHand => "pointer_typedef_properties"

end PassKind

/-- Why customising a tree fails. -/
inductive PassError where
  | declarationNotFound (name : String)
  | classNotFound (name : String) (cause : TreeError)
  | propertyNotFound (className property : String)
  /-- `later` is listed before `earlier`, whose output it needs. -/
  | passOrder (earlier later : PassKind)
  | duplicatePass (pass : PassKind)
  | passFailed (pass : PassKind) (cause : PassError)
  | tree (cause : TreeError)
  deriving DecidableEq, Repr

namespace PassError

/-- The wording of the error. -/
def message : PassError → String
  | .declarationNotFound name => "Could not find declaration \"" ++ name ++ "\""
  | .classNotFound name _ => "Could not find class \"" ++ name ++ "\""
  | .propertyNotFound className property =>
    "Could not find property \"" ++ property ++ "\" on class \"" ++ className ++ "\""
  | .passOrder earlier later =>
    "Pass \"" ++ later.name ++ "\" must run after \"" ++ earlier.name ++ "\""
  | .duplicatePass pass => "Pass \"" ++ pass.name ++ "\" is listed more than once"
  | .passFailed pass _ => "Failed to run pass \"" ++ pass.name ++ "\""
  | .tree _ => "Declaration tree error"

/-- The messages of the errors behind this one.  A missing declaration or property has a record of
where it was missed behind it, which is empty unless such records are asked for. -/
def causes : PassError → List String
  | .declarationNotFound _ => [""]
  | .propertyNotFound _ _ => [""]
  | .classNotFound _ cause => [cause.message]
  | .passFailed _ cause => cause.message :: cause.causes
  | .tree cause => [cause.message]
  | .passOrder _ _ | .duplicatePass _ => []

end PassError

end Bindery
