import Bindery.Document.Nodes
import Bindery.Log
import Bindery.Path
import Bindery.Tree.Walk

/-!
# Loading and dumping a tree

A tree is made of the nodes of a document by adding their declarations one by one, each node before
those inside it.  If headers are named, only their translation units are taken, and each of them
must be there.

Dumping a tree gives its nodes again, with every identifier written out.
-/

namespace Bindery.Tree

/-! ## Loading -/

/-- Whether the translation unit of a name is that of a header. -/
def isUnitOf (name header : String) : Bool := name = header || Path.endsWith name header

/-- The identifier of a record that is put below `parent`: the one given, else the translation
unit's own, else one made of the parent's identifier and the name in the header. -/
def effectiveUsr (t : Tree) (parent : Option Nat) (r : DeclRecord) : Usr :=
  match r.usr, r.kind, parent with
  | some usr, _, _ => usr
  | none, .translationUnit, _ => Decl.translationUnitUsr r.name
  | none, _, some p => ⟨(t.decl p).usr.text ++ "@" ++ r.headerName⟩
  | none, _, none => ⟨r.headerName⟩

/-- Adds the declaration of a record. -/
def insertRecord (t : Tree) (parent : Option Nat) (r : DeclRecord) : Except TreeError Tree := do
  t.insert parent (← r.toDecl (t.effectiveUsr parent r))

mutual

/-- Adds the declaration of a node and of all nodes inside it. -/
def insertNode (t : Tree) (parent : Option Nat) : DeclNode → Except TreeError Tree
  | .mk r children => do
    let next ← t.insertRecord parent r
    insertNodes next (some t.size) children

/-- Adds the nodes of a list, in order. -/
def insertNodes (t : Tree) (parent : Option Nat) : List DeclNode → Except TreeError Tree
  | [] => .ok t
  | node :: nodes => do
    let next ← insertNode t parent node
    insertNodes next parent nodes

end

/-- The first of the headers that no translation unit among the nodes belongs to. -/
def missingHeader? (nodes : List DeclNode) (headers : List String) : Option String :=
  headers.find? fun header => !nodes.any fun node => isUnitOf node.record.name header

/-- The nodes of the translation units that belong to the headers; all of them if none is given. -/
def selectNodes (nodes : List DeclNode) (headers : List String) : List DeclNode :=
  if headers.isEmpty then nodes
  else nodes.filter fun node => headers.any (isUnitOf node.record.name)

/-- The tree of a list of nodes. -/
def ofNodes (nodes : List DeclNode) (headers : List String) : Logged (Except TreeError Tree) :=
  match missingHeader? nodes headers with
  | some header => do
    Logged.error ("Header \"" ++ header ++ "\" is not in the declaration tree")
    return .error (.headerNotFound header)
  | none => return insertNodes empty none (selectNodes nodes headers)

/-- The tree of a document. -/
def load (text : String) (headers : List String) : Logged (Except TreeError Tree) :=
  match DeclNode.readAll? text with
  | none => return .error .malformed
  | some nodes => ofNodes nodes headers

/-! ## Dumping -/

/-- The node of a declaration. -/
def toNode (t : Tree) (id : Nat) : DeclNode :=
  .mk (.ofDecl (t.decl id)) ((t.children id).attach.map fun ⟨c, _⟩ => t.toNode c)
termination_by t.size - id
decreasing_by
  have := mem_children ‹_›
  omega

/-- The nodes of a tree. -/
def toNodes (t : Tree) : List DeclNode := t.translationUnits.map t.toNode

/-- The text of the document of a tree. -/
def dump (t : Tree) : String := DeclNode.writeAll t.toNodes

end Bindery.Tree
