import Bindery.Json.Printer
import Bindery.Json.Reader
import Bindery.Output.Block
import Bindery.Output.Error

/-!
# Output files

Everything an emitter generated for one file: the name of the file and its blocks.
-/

namespace Bindery

open Json

/-- A file to be written. -/
structure OutputFile where
  name : String
  blocks : List Block
  deriving Inhabited

namespace OutputFile

/-- The text of the file. -/
def render (file : OutputFile) : String := Block.renderAll file.blocks

/-- The document of a file. -/
def toJson (file : OutputFile) : Json :=
  record [("file_name", Json.text file.name), ("blocks", .array (Block.listToJson file.blocks))]

/-- Reads a file. -/
def ofJson? : (budget : Nat) → Json → Option OutputFile
  | budget + 1, v => do
    let fields ← fieldsOf? ["file_name", "blocks"] v
    return {
      name := ← fields.required? "file_name" asText?
      blocks := ← fields.withDefault? "blocks" [] (asList? Block.ofJson? budget) }
  | _, _ => none

/-- Reads the files that an emitter generated from the text of their document. -/
def readAll (text : String) : Except WriteError (List OutputFile) :=
  match (Json.read? text).bind (asList? ofJson? nestingLimit) with
  | some files => .ok files
  | none => .error .malformed

/-- Reads the files from the text of a file on disk, if there is one. -/
def readContents (contents : Option String) : Except WriteError (List OutputFile) :=
  match contents with
  | some text => readAll text
  | none => .error .unreadable

/-- The text of the document of files. -/
def writeAll (files : List OutputFile) : String := (ofList toJson files).pretty

end OutputFile

end Bindery
