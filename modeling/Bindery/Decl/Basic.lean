import Bindery.Decl.Signature

/-!
# Declarations

A declaration has an identifier, the name it will be emitted with, the name its header gives it,
an access level, a mark that keeps it out of the output, and a payload that depends on its kind.

`Kind.canContain` says which declarations may lie directly inside which.
-/

namespace Bindery

/-- The kinds of declarations. -/
inductive Kind where
  | translationUnit
  | namespaceScope
  | classType
  | function
  | method
  | property
  | enumType
  | typedef
  | globalVariable
  deriving DecidableEq, Repr, Inhabited

namespace Kind

/-- The kind as it is written in listings and messages. -/
def label : Kind → String
  | .translationUnit => "TranslationUnit"
  | .namespaceScope => "Namespace"
  | .classType => "Class"
  | .function => "Function"
  | .method => "Method"
  | .property => "Property"
  | .enumType => "Enum"
  | .typedef => "Typedef"
  | .globalVariable => "Variable"

/-- Functions and methods: what can be overloaded. -/
def isCallable : Kind → Bool
  | .function | .method => true
  | _ => false

/-- Declarations that name a type. -/
def isType : Kind → Bool
  | .classType | .enumType | .typedef => true
  | _ => false

/-- Translation units and namespaces: the scopes outside of classes. -/
def isNamespaceScope : Kind → Bool
  | .translationUnit | .namespaceScope => true
  | _ => false

/-- Whether a declaration of kind `child` may lie directly inside one of kind `parent`; without a
parent it stands at the top of the tree. -/
def canContain (parent : Option Kind) (child : Kind) : Bool :=
  match parent, child with
  | none, .translationUnit => true
  | some .translationUnit, child | some .namespaceScope, child =>
    match child with
    | .namespaceScope | .classType | .function | .enumType | .typedef | .globalVariable => true
    | _ => false
  | some .classType, child =>
    match child with
    | .property | .method | .classType | .enumType | .typedef => true
    | _ => false
  | _, _ => false

end Kind

/-- Who may use a declaration. -/
inductive Access where
  | isPublic
  | isProtected
  | isPrivate
  deriving DecidableEq, Repr, Inhabited

namespace Access

/-- The level as it is written in listings. -/
def label : Access → String
  | .isPublic => "Public"
  | .isProtected => "Protected"
  | .isPrivate => "Private"

end Access

/-- What a declaration of each kind carries. -/
inductive Payload where
  | translationUnit
  | namespaceScope
  /-- A class, struct or union; incomplete when it was only ever declared forward. -/
  | classType (isComplete : Bool) (bases : List Usr)
  | function (signature : Signature)
  | method (method : Method)
  /-- A data member; `needsManual` marks one that has to be written by hand. -/
  | property (type : QualType) (needsManual : Bool)
  /-- An enumeration; `isFlags` marks members that are bits to be combined. -/
  | enumType (variants : List (String × Int64)) (isFlags : Bool)
  | typedef (underlying : QualType)
  | globalVariable (type : QualType)
  deriving DecidableEq, Inhabited

/-- A declaration. -/
structure Decl where
  usr : Usr
  /-- The name the declaration will be emitted with. -/
  name : String
  /-- The name as spelled in the header. -/
  headerName : String
  /-- Whether the declaration is kept out of the output. -/
  ignored : Bool
  access : Access
  payload : Payload
  deriving DecidableEq, Inhabited

namespace Payload

/-- The kind that the payload belongs to. -/
def kind : Payload → Kind
  | .translationUnit => .translationUnit
  | .namespaceScope => .namespaceScope
  | .classType .. => .classType
  | .function _ => .function
  | .method _ => .method
  | .property .. => .property
  | .enumType .. => .enumType
  | .typedef _ => .typedef
  | .globalVariable _ => .globalVariable

/-- The signature of a function or method. -/
def signature? : Payload → Option Signature
  | .function signature => some signature
  | .method m => some m.signature
  | _ => none

/-- The payload with another signature, if it has one. -/
def withSignature (signature : Signature) : Payload → Payload
  | .function _ => .function signature
  | .method m => .method { m with signature }
  | payload => payload

/-- The declarations named by the signature or type. -/
def references : Payload → List Usr
  | .function signature => signature.references
  | .method m => m.signature.references
  | .property type _ => type.references
  | .globalVariable type => type.references
  | .typedef underlying => underlying.references
  | _ => []

end Payload

namespace Decl

/-- A public declaration under one name. -/
def new (usr : Usr) (name : String) (payload : Payload) : Decl :=
  ⟨usr, name, name, false, .isPublic, payload⟩

/-- The identifier of the translation unit of a header. -/
def translationUnitUsr (header : String) : Usr := ⟨"tu:" ++ header⟩

/-- The kind of the declaration. -/
def kind (decl : Decl) : Kind := decl.payload.kind

/-- The signature of a function or method. -/
def signature? (decl : Decl) : Option Signature := decl.payload.signature?

/-- The method a declaration is. -/
def method? (decl : Decl) : Option Method :=
  match decl.payload with
  | .method m => some m
  | _ => none

/-- Whether the declaration is a class with a definition. -/
def isCompleteClass (decl : Decl) : Bool :=
  match decl.payload with
  | .classType isComplete _ => isComplete
  | _ => false

/-- The base classes of a class; nothing for other declarations. -/
def bases (decl : Decl) : List Usr :=
  match decl.payload with
  | .classType _ bases => bases
  | _ => []

/-- The type that a typedef stands for. -/
def underlying? (decl : Decl) : Option QualType :=
  match decl.payload with
  | .typedef underlying => some underlying
  | _ => none

/-- The declarations named by the signature or type. -/
def references (decl : Decl) : List Usr := decl.payload.references

/-- Whether the declaration itself is neither hidden nor restricted. -/
def isExposed (decl : Decl) : Bool := !decl.ignored && decl.access = .isPublic

end Decl

end Bindery
