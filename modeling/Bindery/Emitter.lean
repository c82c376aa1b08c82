import Bindery.Output.File
import Bindery.Text.Replace
import Bindery.Tree.Walk

/-!
# Emitters

An emitter makes output files of a tree, or says why it cannot.  It must leave out whatever is kept
out of the output.

`Emitter.outline` emits no code, only an outline: a file for each translation unit, with a block for
each class and each function of the public interface.
-/

namespace Bindery

/-- What makes output files of a tree; a failure is given by its wording. -/
abbrev Emitter := Tree → Except String (List OutputFile)

namespace Emitter

/-- The block of a function, with the library it is taken from. -/
def functionBlock (library name : String) : Block :=
  .mk .function ("fn " ++ name ++ "\n") [.plain ("  [DllImport(\"" ++ library ++ "\")]\n")]

/-- The block of a declaration in an outline, if it has one. -/
def outlineBlock? (library : String) (t : Tree) (id : Nat) : Option Block :=
  if t.isVisible id then
    match (t.decl id).kind with
    | .classType => some (.mk .classType ("class " ++ (t.decl id).name ++ "\n") [])
    | .function => some (functionBlock library (t.qualifiedName id))
    | _ => none
  else none

/-- The file of a translation unit in an outline. -/
def outlineFile (library : String) (t : Tree) (unit : Nat) : OutputFile :=
  let header := (t.decl unit).name
  ⟨Text.replace ".h" ".cs" header,
    .plain ("// " ++ header ++ "\n") :: (t.descendants unit).filterMap (outlineBlock? library t)⟩

/-- Outlines of all translation units. -/
def outline (library : String) : Emitter := fun t =>
  .ok (t.translationUnits.map (outlineFile library t))

/-- An emitter without the template it needs. -/
def withoutTemplate (template : String) : Emitter := fun _ =>
  .error ("template \"" ++ template ++ "\" is missing")

/-- An emitter that has the files ready, whatever the tree. -/
def prepared (files : List OutputFile) : Emitter := fun _ => .ok files

end Emitter

end Bindery
