import Bindery.Tree.Basic

/-!
# Listing a tree

A tree as text: one declaration a line, two blanks further in than its parent.  A line shows the
kind, the name with what the kind has to say about it, and then whatever sets the declaration apart
from an ordinary one.
-/

namespace Bindery

namespace Decl

/-- The name of a declaration together with its types, members or values. -/
def headline (decl : Decl) : String :=
  match decl.payload with
  | .translationUnit | .namespaceScope => decl.name
  | .classType _ [] => decl.name
  | .classType _ bases =>
    decl.name ++ " bases=[" ++ String.intercalate ", " (bases.map (·.text)) ++ "]"
  | .function signature => signature.display decl.name
  | .method method => method.signature.display decl.name
  | .property type _ | .globalVariable type => decl.name ++ ": " ++ type.display
  | .enumType variants _ =>
    let members := variants.map fun (name, value) => name ++ "=" ++ toString value.toInt
    decl.name ++ " [" ++ String.intercalate " " members ++ "]"
  | .typedef underlying => decl.name ++ " = " ++ underlying.display

/-- A word that is shown only if something holds. -/
def mark (shown : Bool) (word : String) : String := if shown then word else ""

/-- What the payload adds to the marks of a declaration. -/
def payloadMarks : Payload → String
  | .classType isComplete _ => mark (!isComplete) " incomplete"
  | .method method =>
    mark method.isVirtual " virtual" ++ mark method.isStatic " static" ++
      match method.receiver with
      | some receiver => " receiver=(" ++ receiver.display ++ ")"
      | none => ""
  | .enumType _ isFlags => mark isFlags " flags"
  | .property _ needsManual => mark needsManual " manual"
  | _ => ""

/-- The line of a declaration. -/
def line (decl : Decl) : String :=
  decl.kind.label ++ " " ++ decl.headline ++
    mark (decl.headerName ≠ decl.name) (" original=" ++ decl.headerName) ++
    mark (decl.access ≠ .isPublic) (" access=" ++ decl.access.label) ++
    payloadMarks decl.payload ++
    mark decl.ignored " ignored"

end Decl

namespace Tree

/-- The lines of a declaration and of everything below it. -/
def listFrom (t : Tree) (depth id : Nat) : List String :=
  (String.ofList (List.replicate (2 * depth) ' ') ++ (t.decl id).line) ::
    (t.children id).attach.flatMap fun ⟨c, _⟩ => t.listFrom (depth + 1) c
termination_by t.size - id
decreasing_by
  have := mem_children ‹_›
  omega

/-- The lines of the whole tree. -/
def listing (t : Tree) : List String := t.translationUnits.flatMap (t.listFrom 0)

/-- The listing as one text; every line is ended. -/
def listingText (t : Tree) : String := String.join (t.listing.map (· ++ "\n"))

end Tree

end Bindery
