import Bindery.Decl.Basic
import Bindery.Json.Decoder
import Bindery.Text.Replace

/-!
# Naming rules

The three kinds of rules by which names are brought to the convention of the wrapper: a prefix to
take off, names to give, and kinds of declarations whose names begin with a capital.
-/

namespace Bindery

open Json

/-- What is taken off the front of a name. -/
inductive NamePrefix where
  | nothing
  /-- A text, once. -/
  | literal (text : String)
  /-- All leading characters that occur in `chars`. -/
  | charSet (chars : String)
  deriving DecidableEq, Repr

namespace NamePrefix

/-- The name without the prefix; a name that does not begin with it stays as it is. -/
def takeOff (rule : NamePrefix) (name : String) : String :=
  match rule with
  | .nothing => name
  | .literal text =>
    match Text.after? text.toList name.toList with
    | some rest => String.ofList rest
    | none => name
  | .charSet chars => String.ofList (name.toList.dropWhile fun c => chars.toList.contains c)

/-- The document of a prefix. -/
def toJson : NamePrefix → Json
  | .nothing => record [("mode", Json.text "none")]
  | .literal text => record [("mode", Json.text "literal"), ("prefix", Json.text text)]
  | .charSet chars => record [("mode", Json.text "char_set"), ("chars", Json.text chars)]

/-- Reads a prefix. -/
def ofJson? (budget : Nat) (v : Json) : Option NamePrefix := do
  let (name, rest) ← asTagged? "mode" budget v
  match name with
  | "none" => do
    let _ ← fieldsOf? [] rest
    return .nothing
  | "literal" => do
    let fields ← fieldsOf? ["prefix"] rest
    return .literal (← fields.required? "prefix" asText?)
  | "char_set" => do
    let fields ← fieldsOf? ["chars"] rest
    return .charSet (← fields.required? "chars" asText?)
  | _ => none

end NamePrefix

/-- The kinds of declarations whose names can be made to begin with a capital. -/
inductive CapitalTarget where
  | classType
  | property
  | function
  | method
  | enumType
  deriving DecidableEq, Repr

namespace CapitalTarget

/-- The kind of declarations a target means. -/
def kind : CapitalTarget → Kind
  | .classType => .classType
  | .property => .property
  | .function => .function
  | .method => .method
  | .enumType => .enumType

/-- The targets by the words they are written with in a document. -/
def words : List (String × CapitalTarget) :=
  [("class", .classType), ("property", .property), ("function", .function), ("method", .method),
    ("enum", .enumType)]

/-- The word of a target. -/
def word : CapitalTarget → String
  | .classType => "class"
  | .property => "property"
  | .function => "function"
  | .method => "method"
  | .enumType => "enum"

@[simp]
theorem lookup_word (target : CapitalTarget) : words.lookup target.word = some target := by
  cases target <;> decide

/-- The document of a target. -/
def toJson (target : CapitalTarget) : Json := Json.text target.word

/-- Reads a target. -/
def ofJson? : (budget : Nat) → Json → Option CapitalTarget := asVariant? words

end CapitalTarget

/-- A name to give to every declaration that the header calls `headerName`. -/
structure Renaming where
  headerName : String
  name : String
  deriving DecidableEq, Repr

namespace Renaming

/-- The document of a renaming. -/
def toJson (rename : Renaming) : Json :=
  record [("original", Json.text rename.headerName), ("name", Json.text rename.name)]

/-- Reads a renaming. -/
def ofJson? : (budget : Nat) → Json → Option Renaming
  | _ + 1, v => do
    let fields ← fieldsOf? ["original", "name"] v
    return ⟨← fields.required? "original" asText?, ← fields.required? "name" asText?⟩
  | _, _ => none

end Renaming

end Bindery
