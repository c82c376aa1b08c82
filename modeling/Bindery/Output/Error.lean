import Bindery.Text.Decimal

/-!
# What can go wrong with outputs

The causes for which outputs cannot be read, changed or written, and the wording of each.
-/

namespace Bindery

/-- Why reading, changing or writing outputs fails. -/
inductive WriteError where
  /-- The substitution at this position has nothing to look for. -/
  | emptySubstitution (index : Nat)
  | cannotWrite (path : String)
  | cannotMakeDirectory (path : String)
  /-- The text is not the document of outputs. -/
  | malformed
  /-- The file of the outputs cannot be read. -/
  | unreadable
  deriving DecidableEq, Repr

namespace WriteError

/-- The wording of the error. -/
def message : WriteError → String
  | .emptySubstitution index =>
    "Substitution " ++ Text.Decimal.text index ++ " has an empty search string"
  | .cannotWrite path => "Failed to write output \"" ++ path ++ "\""
  | .cannotMakeDirectory path => "Failed to create output directory \"" ++ path ++ "\""
  | .malformed => "Failed to read generator outputs"
  | .unreadable => "I/O error"

end WriteError

end Bindery
