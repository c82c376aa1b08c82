import Bindery.Json.Printer
import Bindery.Json.Reader
import Bindery.Tree.Error
import Bindery.Document.Types

/-!
# Declarations in documents

A document of a tree is a list of nodes, one for each translation unit, each with the nodes of the
declarations inside it.  A `DeclRecord` is a node without what lies inside: one record with the
fields of all kinds, most of them at their defaults.  A field at its default is not written.

`DeclRecord.toDecl` keeps the fields that belong to the kind, and fails if one that the kind needs
is missing; `DeclRecord.ofDecl` is its inverse on declarations (`toDecl_ofDecl`).
-/

namespace Bindery

open Json

namespace Kind

/-- The kinds by the words they are written with in a document. -/
def words : List (String × Kind) :=
  [("translation_unit", .translationUnit), ("namespace", .namespaceScope), ("class", .classType),
    ("function", .function), ("method", .method), ("property", .property), ("enum", .enumType),
    ("typedef", .typedef), ("variable", .globalVariable)]

/-- The word of a kind. -/
def word : Kind → String
  | .translationUnit => "translation_unit"
  | .namespaceScope => "namespace"
  | .classType => "class"
  | .function => "function"
  | .method => "method"
  | .property => "property"
  | .enumType => "enum"
  | .typedef => "typedef"
  | .globalVariable => "variable"

@[simp]
theorem lookup_word (kind : Kind) : words.lookup kind.word = some kind := by
  cases kind <;> decide

end Kind

namespace Access

/-- The access levels by the words they are written with in a document. -/
def words : List (String × Access) :=
  [("public", .isPublic), ("protected", .isProtected), ("private", .isPrivate)]

/-- The word of an access level. -/
def word : Access → String
  | .isPublic => "public"
  | .isProtected => "protected"
  | .isPrivate => "private"

@[simp]
theorem lookup_word (access : Access) : words.lookup access.word = some access := by
  cases access <;> decide

end Access

/-- The fields of a declaration in a document, those of all kinds together. -/
structure DeclRecord where
  kind : Kind
  name : String
  usr : Option Usr
  givenHeaderName : Option String
  ignored : Bool
  access : Access
  isComplete : Bool
  bases : List Usr
  result : Option QualType
  arguments : List Argument
  isVariadic : Bool
  isVirtual : Bool
  isStatic : Bool
  receiver : Option Argument
  promotedFrom : Option Usr
  type : Option QualType
  needsManual : Bool
  variants : List (String × Int64)
  isFlags : Bool
  deriving DecidableEq

namespace DeclRecord

/-- A record with nothing but a kind and a name. -/
def bare (kind : Kind) (name : String) : DeclRecord where
  kind
  name
  usr := none
  givenHeaderName := none
  ignored := false
  access := .isPublic
  isComplete := true
  bases := []
  result := none
  arguments := []
  isVariadic := false
  isVirtual := false
  isStatic := false
  receiver := none
  promotedFrom := none
  type := none
  needsManual := false
  variants := []
  isFlags := false

/-! ## Records and declarations -/

/-- The name in the header: the one given as such, else the name. -/
def headerName (r : DeclRecord) : String := r.givenHeaderName.getD r.name

/-- A field that the kind of the declaration needs. -/
def needed {α : Type} (r : DeclRecord) (field : RequiredField) : Option α → Except TreeError α
  | some a => .ok a
  | none => .error (.missingField r.kind r.name field)

/-- The signature of a function or method. -/
def signature (r : DeclRecord) : Except TreeError Signature :=
  (r.needed .result r.result).map fun result => ⟨result, r.arguments, r.isVariadic⟩

/-- The payload of the declaration, made of the fields that belong to its kind. -/
def payload (r : DeclRecord) : Except TreeError Payload :=
  match r.kind with
  | .translationUnit => .ok .translationUnit
  | .namespaceScope => .ok .namespaceScope
  | .classType => .ok (.classType r.isComplete r.bases)
  | .function => r.signature.map .function
  | .method => r.signature.map fun signature =>
      .method ⟨signature, r.isVirtual, r.isStatic, r.receiver, r.promotedFrom⟩
  | .property => (r.needed .type r.type).map (.property · r.needsManual)
  | .enumType => .ok (.enumType r.variants r.isFlags)
  | .typedef => (r.needed .type r.type).map .typedef
  | .globalVariable => (r.needed .type r.type).map .globalVariable

/-- The declaration of the record, under an identifier. -/
def toDecl (r : DeclRecord) (usr : Usr) : Except TreeError Decl :=
  r.payload.map fun payload => ⟨usr, r.name, r.headerName, r.ignored, r.access, payload⟩

/-- The record of a declaration.  The name in the header is given only where it differs. -/
def ofDecl (decl : Decl) : DeclRecord :=
  let base := {
    bare decl.kind decl.name with
    usr := some decl.usr
    givenHeaderName := if decl.headerName = decl.name then none else some decl.headerName
    ignored := decl.ignored
    access := decl.access }
  match decl.payload with
  | .translationUnit | .namespaceScope => base
  | .classType isComplete bases => { base with isComplete, bases }
  | .function s =>
    { base with result := some s.result, arguments := s.arguments, isVariadic := s.isVariadic }
  | .method m =>
    { base with
      result := some m.signature.result
      arguments := m.signature.arguments
      isVariadic := m.signature.isVariadic
      isVirtual := m.isVirtual
      isStatic := m.isStatic
      receiver := m.receiver
      promotedFrom := m.promotedFrom }
  | .property type needsManual => { base with type := some type, needsManual }
  | .enumType variants isFlags => { base with variants, isFlags }
  | .typedef type | .globalVariable type => { base with type := some type }

theorem toDecl_ofDecl (decl : Decl) : (ofDecl decl).toDecl decl.usr = .ok decl := by
  obtain ⟨usr, name, inHeader, ignored, access, payload⟩ := decl
  have source : (if inHeader = name then none else some inHeader).getD name = inHeader := by
    split <;> simp_all
  cases payload <;>
    simp [ofDecl, toDecl, DeclRecord.payload, bare, Decl.kind, Payload.kind, headerName, source,
      signature, needed, Except.map]

/-! ## Records in documents -/

/-- The members of the document of a record. -/
def members (r : DeclRecord) : List (String × Json) :=
  [("kind", Json.text r.kind.word), ("name", Json.text r.name)] ++
  memberOf? "usr" Usr.toJson r.usr ++
  memberOf? "original_name" Json.text r.givenHeaderName ++
  memberIf r.ignored "ignore" (.bool true) ++
  memberIf (r.access ≠ .isPublic) "access" (Json.text r.access.word) ++
  memberIf (!r.isComplete) "complete" (.bool false) ++
  memberOfList "bases" Usr.toJson r.bases ++
  memberOf? "result" QualType.toJson r.result ++
  memberOfList "arguments" Argument.toJson r.arguments ++
  memberIf r.isVariadic "is_variadic" (.bool true) ++
  memberIf r.isVirtual "is_virtual" (.bool true) ++
  memberIf r.isStatic "is_static" (.bool true) ++
  memberOf? "receiver" Argument.toJson r.receiver ++
  memberOf? "promoted_from" Usr.toJson r.promotedFrom ++
  memberOf? "type" QualType.toJson r.type ++
  memberIf r.needsManual "manual_impl" (.bool true) ++
  memberOfList "variants" (fun (name, value) => .array [Json.text name, ofInt64 value])
    r.variants ++
  memberIf r.isFlags "is_flags" (.bool true)

/-- The names of the fields of a record, in order. -/
def fieldNames : List String :=
  ["kind", "name", "usr", "original_name", "ignore", "access", "complete", "bases", "result",
    "arguments", "is_variadic", "is_virtual", "is_static", "receiver", "promoted_from", "type",
    "manual_impl", "variants", "is_flags"]

/-- Reads a record from its fields. -/
def ofFields? (budget : Nat) (fields : Fields) : Option DeclRecord := do
  let flag (name : String) := fields.withDefault? name false asBool?
  return {
    kind := ← fields.required? "kind" (asVariant? Kind.words budget)
    name := ← fields.required? "name" asText?
    usr := ← fields.optional? "usr" Usr.ofJson?
    givenHeaderName := ← fields.optional? "original_name" asText?
    ignored := ← flag "ignore"
    access := ← fields.withDefault? "access" .isPublic (asVariant? Access.words budget)
    isComplete := ← fields.withDefault? "complete" true asBool?
    bases := ← fields.withDefault? "bases" [] (asList? (fun _ => Usr.ofJson?) budget)
    result := ← fields.optional? "result" (QualType.ofJson? budget)
    arguments := ← fields.withDefault? "arguments" [] (asList? Argument.ofJson? budget)
    isVariadic := ← flag "is_variadic"
    isVirtual := ← flag "is_virtual"
    isStatic := ← flag "is_static"
    receiver := ← fields.optional? "receiver" (Argument.ofJson? budget)
    promotedFrom := ← fields.optional? "promoted_from" Usr.ofJson?
    type := ← fields.optional? "type" (QualType.ofJson? budget)
    needsManual := ← flag "manual_impl"
    variants := ← fields.withDefault? "variants" []
      (asList? (asPair? asText? asInt64?) budget)
    isFlags := ← flag "is_flags" }

end DeclRecord

/-- A declaration in a document, with the declarations inside it. -/
inductive DeclNode where
  | mk (record : DeclRecord) (children : List DeclNode)

namespace DeclNode

/-- The node without what lies inside it. -/
def record : DeclNode → DeclRecord
  | .mk record _ => record

/-- The nodes inside a node. -/
def children : DeclNode → List DeclNode
  | .mk _ children => children

/-! ## Nodes in documents -/

mutual

/-- The document of a node. -/
def toJson : DeclNode → Json
  | .mk r children =>
    Json.record (r.members ++
      memberIf (!children.isEmpty) "children" (.array (listToJson children)))

/-- The documents of the nodes in a list. -/
def listToJson : List DeclNode → List Json
  | [] => []
  | node :: nodes => toJson node :: listToJson nodes

end

mutual

/-- Reads a node. -/
def ofJson? : (budget : Nat) → Json → Option DeclNode
  | 0, _ => none
  | budget + 1, v => do
    let fields ← fieldsOf? (DeclRecord.fieldNames ++ ["children"]) v
    let r ← DeclRecord.ofFields? budget fields
    return .mk r (← fields.withDefault? "children" [] (listOfJson? budget))

/-- Reads the nodes in a list. -/
def listOfJson? : (budget : Nat) → Json → Option (List DeclNode)
  | budget + 1, .array items => items.mapM (ofJson? budget)
  | _, _ => none

end

/-- Reads the nodes of a tree from the text of its document. -/
def readAll? (text : String) : Option (List DeclNode) :=
  (Json.read? text).bind (listOfJson? nestingLimit)

/-- The text of the document of a tree. -/
def writeAll (nodes : List DeclNode) : String := (Json.array (listToJson nodes)).pretty

end DeclNode

end Bindery
