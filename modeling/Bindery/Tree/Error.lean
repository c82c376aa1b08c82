import Bindery.Decl.Basic

/-!
# What can be wrong with a tree

The causes for which a tree cannot be loaded, a declaration cannot be added to it, or a class
cannot be found in it, and the wording of each.
-/

namespace Bindery

/-- The fields of a declaration that some kinds require. -/
inductive RequiredField where
  | result
  | type
  deriving DecidableEq, Repr

namespace RequiredField

/-- The name of the field in a document. -/
def label : RequiredField → String
  | .result => "result"
  | .type => "type"

end RequiredField

/-- Why an operation on a tree fails. -/
inductive TreeError where
  /-- No class with a definition has the name. -/
  | classNotFound (name : String)
  /-- More than one class with a definition has the name. -/
  | multipleMatches (name : String)
  | duplicateUsr (usr : Usr)
  | invalidParent (parent : Option Kind) (child : Kind) (name : String)
  | missingField (kind : Kind) (name : String) (field : RequiredField)
  | headerNotFound (header : String)
  /-- The file of the tree cannot be read. -/
  | unreadable
  /-- The text is not the document of a tree. -/
  | malformed
  deriving DecidableEq, Repr

namespace TreeError

/-- How the place at which a declaration was to be put is written. -/
def placeLabel : Option Kind → String
  | none => "None"
  | some kind => "Some(" ++ kind.label ++ ")"

/-- The wording of the error. -/
def message : TreeError → String
  | .classNotFound name => "Could not find class \"" ++ name ++ "\" in AST"
  | .multipleMatches name => "Multiple complete definitions found for class \"" ++ name ++ "\""
  | .duplicateUsr usr => "A declaration with USR \"" ++ usr.text ++ "\" is already in the AST"
  | .invalidParent parent child name =>
    child.label ++ " \"" ++ name ++ "\" cannot be declared inside " ++ placeLabel parent
  | .missingField kind name field =>
    kind.label ++ " \"" ++ name ++ "\" is missing field \"" ++ field.label ++ "\""
  | .headerNotFound header => "Header \"" ++ header ++ "\" was not found in the declaration tree"
  | .unreadable => "I/O error"
  | .malformed => "Failed to read declaration tree JSON"

end TreeError

end Bindery
