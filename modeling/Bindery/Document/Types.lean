import Bindery.Decl.Signature
import Bindery.Json.Decoder

/-!
# Types and arguments in documents

How types and arguments are written in a document and read from one.  A type is a record whose
`type_ref` maps the one word that says what the type is to what it names; a pointer or reference
holds another type there, two levels further in.
-/

namespace Bindery

open Json

namespace Usr

/-- The document of an identifier. -/
def toJson (usr : Usr) : Json := Json.text usr.text

/-- Reads an identifier. -/
def ofJson? (v : Json) : Option Usr := v.asText?.map Usr.mk

end Usr

namespace TypeName

/-- The document of what a type names. -/
def toJson : TypeName → Json
  | .builtin name => record [("builtin", Json.text name)]
  | .declared usr => record [("ref", usr.toJson)]
  | .unknown spelling => record [("unknown", Json.text spelling)]

/-- Reads what a type names, given the word before it. -/
def ofJson? : (word : String) → Json → Option TypeName
  | "builtin", v => v.asText?.map .builtin
  | "ref", v => (Usr.ofJson? v).map .declared
  | "unknown", v => v.asText?.map .unknown
  | _, _ => none

end TypeName

namespace Indirection

/-- The word that stands before the target of a pointer or reference. -/
def word : Indirection → String
  | .pointer => "pointer"
  | .reference => "l_value_reference"

/-- The pointer or reference a word announces. -/
def ofWord? : String → Option Indirection
  | "pointer" => some .pointer
  | "l_value_reference" => some .reference
  | _ => none

end Indirection

namespace QualType

/-- The document of a type. -/
def toJson : QualType → Json
  | .named spelling isConst name =>
    record [("name", Json.text spelling), ("is_const", .bool isConst), ("type_ref", name.toJson)]
  | .indirect spelling isConst by_ target =>
    record [("name", Json.text spelling), ("is_const", .bool isConst),
      ("type_ref", record [(by_.word, target.toJson)])]

/-- Reads a type. -/
def ofJson? : (budget : Nat) → Json → Option QualType
  | budget + 2, v => do
    let fields ← fieldsOf? ["name", "is_const", "type_ref"] v
    let spelling ← fields.required? "name" asText?
    let isConst ← fields.withDefault? "is_const" false asBool?
    match fields.lookup "type_ref" with
    | some (.object [(some word, inner)]) =>
      match Indirection.ofWord? word with
      | some by_ => return .indirect spelling isConst by_ (← ofJson? budget inner)
      | none => return .named spelling isConst (← TypeName.ofJson? word inner)
    | _ => none
  | _, _ => none

end QualType

namespace Argument

/-- The document of an argument. -/
def toJson (argument : Argument) : Json :=
  record ([("name", Json.text argument.name), ("type", argument.type.toJson)] ++
    memberOf? "default" Json.text argument.defaultValue)

/-- Reads an argument. -/
def ofJson? : (budget : Nat) → Json → Option Argument
  | budget + 1, v => do
    let fields ← fieldsOf? ["name", "type", "default"] v
    return {
      name := ← fields.required? "name" asText?
      type := ← fields.required? "type" (QualType.ofJson? budget)
      defaultValue := ← fields.optional? "default" asText? }
  | _, _ => none

end Argument

end Bindery
