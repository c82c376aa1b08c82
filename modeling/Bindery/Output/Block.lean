import Bindery.Json.Decoder

/-!
# Blocks of emitted text

What an emitter hands over is not one text but a tree of blocks, each with its role.  The text of a
block comes before the texts of the blocks inside it, so a tree of blocks reads as one text, its
rendering.
-/

namespace Bindery

open Json

/-- The role of a block. -/
inductive BlockKind where
  /-- Text without a role of its own, such as boilerplate and import statements. -/
  | unknown
  | header
  | footer
  | usings
  | namespaceScope
  | classType
  | enumType
  | function
  | method
  | property
  | field
  | typedef
  | comment
  deriving DecidableEq, Repr, Inhabited

namespace BlockKind

/-- The role as it is written in listings. -/
def label : BlockKind → String
  | .unknown => "Unknown"
  | .header => "Header"
  | .footer => "Footer"
  | .usings => "Usings"
  | .namespaceScope => "Namespace"
  | .classType => "Class"
  | .enumType => "Enum"
  | .function => "Function"
  | .method => "Method"
  | .property => "Property"
  | .field => "Field"
  | .typedef => "Typedef"
  | .comment => "Comment"

/-- The roles by the words they are written with in a document. -/
def words : List (String × BlockKind) :=
  [("unknown", .unknown), ("header", .header), ("footer", .footer), ("usings", .usings),
    ("namespace", .namespaceScope), ("class", .classType), ("enum", .enumType),
    ("function", .function), ("method", .method), ("property", .property), ("field", .field),
    ("typedef", .typedef), ("comment", .comment)]

/-- The word of a role. -/
def word : BlockKind → String
  | .unknown => "unknown"
  | .header => "header"
  | .footer => "footer"
  | .usings => "usings"
  | .namespaceScope => "namespace"
  | .classType => "class"
  | .enumType => "enum"
  | .function => "function"
  | .method => "method"
  | .property => "property"
  | .field => "field"
  | .typedef => "typedef"
  | .comment => "comment"

@[simp]
theorem lookup_word (kind : BlockKind) : words.lookup kind.word = some kind := by
  cases kind <;> decide

/-- Reads a role. -/
def ofJson? : (budget : Nat) → Json → Option BlockKind := asVariant? words

end BlockKind

/-- A block of text with the blocks inside it. -/
inductive Block where
  | mk (kind : BlockKind) (text : String) (children : List Block)
  deriving Inhabited

namespace Block

/-- The role of the block. -/
def kind : Block → BlockKind
  | .mk kind _ _ => kind

/-- The text of the block itself. -/
def text : Block → String
  | .mk _ text _ => text

/-- The blocks directly inside the block. -/
def children : Block → List Block
  | .mk _ _ children => children

/-- A block without a role and without blocks inside it. -/
def plain (text : String) : Block := .mk .unknown text []

/-! ## Going through blocks -/

mutual

/-- The text of a block followed by the texts of those inside it. -/
def render : Block → String
  | .mk _ text children => text ++ renderAll children

/-- The renderings of a list of blocks, one after another. -/
def renderAll : List Block → String
  | [] => ""
  | b :: bs => render b ++ renderAll bs

end

mutual

/-- The roles of a block and of all blocks inside it, outer ones first. -/
def kinds : Block → List BlockKind
  | .mk kind _ children => kind :: allKinds children

/-- The roles of all blocks in a list and inside them. -/
def allKinds : List Block → List BlockKind
  | [] => []
  | b :: bs => kinds b ++ allKinds bs

end

/-! ## Documents -/

mutual

/-- The document of a block. -/
def toJson : Block → Json
  | .mk kind text children =>
    record ([("kind", Json.text kind.word), ("text", Json.text text)] ++
      memberIf (!children.isEmpty) "children" (.array (listToJson children)))

/-- The documents of the blocks in a list. -/
def listToJson : List Block → List Json
  | [] => []
  | b :: bs => toJson b :: listToJson bs

end

mutual

/-- Reads a block. -/
def ofJson? : (budget : Nat) → Json → Option Block
  | 0, _ => none
  | budget + 1, v => do
    let fields ← fieldsOf? ["kind", "text", "children"] v
    return .mk (← fields.withDefault? "kind" .unknown (BlockKind.ofJson? budget))
      (← fields.withDefault? "text" "" asText?)
      (← fields.withDefault? "children" [] (listOfJson? budget))

/-- Reads the blocks in a list. -/
def listOfJson? : (budget : Nat) → Json → Option (List Block)
  | budget + 1, .array items => items.mapM (ofJson? budget)
  | _, _ => none

end

end Block

end Bindery
