import Bindery.Naming.Rules
import Bindery.Output.Substitution
import Bindery.Pass.Basic
import Bindery.Selection

/-!
# Configurations

Everything that customises a binding.  In a document every field may be left out and then has the
value it has in `Config.standard`, so a document needs to say only what is different.
-/

namespace Bindery

open Json

/-- The settings of a binding. -/
structure Config where
  /-- The shared library that the wrapper loads. -/
  libraryName : String
  outputNamespace : String
  headers : List String
  includeDirs : List String
  defines : List String
  namePrefix : NamePrefix
  /-- The kinds of declarations whose names begin with a capital. -/
  capitalised : List CapitalTarget
  renames : List Renaming
  /-- The declarations to keep out. -/
  suppressed : List Selector
  passes : List Pass
  substitutions : List Substitution
  deriving DecidableEq

/-- What a front end needs to know in order to read the headers. -/
structure HeaderOptions where
  headers : List String
  includeDirs : List String
  defines : List String
  deriving DecidableEq

namespace Config

/-- Nothing kept out and nothing renamed, with the passes in their usual order. -/
def standard : Config where
  libraryName := ""
  outputNamespace := ""
  headers := []
  includeDirs := []
  defines := []
  namePrefix := .nothing
  capitalised := []
  renames := []
  suppressed := []
  passes := Pass.standard
  substitutions := []

/-- The binding to Dear ImGui through its interface for C. -/
def cimgui : Config where
  libraryName := "cimgui.dll"
  outputNamespace := "DearImguiSharp"
  headers := ["cimgui.h", "cimgui_impl.h"]
  includeDirs := ["./"]
  defines := ["CIMGUI_DEFINE_ENUMS_AND_STRUCTS"]
  namePrefix := .literal "ig"
  capitalised := [.property, .classType]
  renames := []
  suppressed := [.global "GImGui", .property "ImVector_ImTextureID" "Data"]
  passes := Pass.standard
  substitutions := [⟨"cimgui_impl", "ImGui"⟩, ⟨"cimgui", "ImGui"⟩]

/-- The part of a configuration that a front end needs. -/
def headerOptions (config : Config) : HeaderOptions :=
  ⟨config.headers, config.includeDirs, config.defines⟩

/-! ## Documents -/

/-- The members of the document of a configuration. -/
def members (config : Config) : List (String × Json) :=
  [("library_name", Json.text config.libraryName),
    ("output_namespace", Json.text config.outputNamespace),
    ("headers", ofList Json.text config.headers),
    ("include_dirs", ofList Json.text config.includeDirs),
    ("defines", ofList Json.text config.defines),
    ("prefix", config.namePrefix.toJson),
    ("rename_upper_case", ofList CapitalTarget.toJson config.capitalised),
    ("renames", ofList Renaming.toJson config.renames),
    ("suppress", ofList Selector.toJson config.suppressed),
    ("passes", ofList Pass.toJson config.passes),
    ("substitutions", ofList Substitution.toJson config.substitutions)]

/-- The document of a configuration. -/
def toJson (config : Config) : Json := record config.members

/-- The names of the fields of a configuration, in order. -/
def fieldNames : List String :=
  ["library_name", "output_namespace", "headers", "include_dirs", "defines", "prefix",
    "rename_upper_case", "renames", "suppress", "passes", "substitutions"]

/-- Reads a configuration. -/
def ofJson? : (budget : Nat) → Json → Option Config
  | budget + 1, v => do
    let fields ← fieldsOf? fieldNames v
    let texts := asList? (fun _ => asText?) budget
    return {
      libraryName := ← fields.withDefault? "library_name" standard.libraryName asText?
      outputNamespace := ←
        fields.withDefault? "output_namespace" standard.outputNamespace asText?
      headers := ← fields.withDefault? "headers" standard.headers texts
      includeDirs := ← fields.withDefault? "include_dirs" standard.includeDirs texts
      defines := ← fields.withDefault? "defines" standard.defines texts
      namePrefix := ←
        fields.withDefault? "prefix" standard.namePrefix (NamePrefix.ofJson? budget)
      capitalised := ← fields.withDefault? "rename_upper_case" standard.capitalised
        (asList? CapitalTarget.ofJson? budget)
      renames := ←
        fields.withDefault? "renames" standard.renames (asList? Renaming.ofJson? budget)
      suppressed := ←
        fields.withDefault? "suppress" standard.suppressed (asList? Selector.ofJson? budget)
      passes := ← fields.withDefault? "passes" standard.passes (asList? Pass.ofJson? budget)
      substitutions := ← fields.withDefault? "substitutions" standard.substitutions
        (asList? Substitution.ofJson? budget) }
  | _, _ => none

/-- Reads a configuration from its text. -/
def read? (text : String) : Option Config := (Json.read? text).bind (ofJson? nestingLimit)

/-- The text of a configuration. -/
def write (config : Config) : String := config.toJson.pretty

end Config

end Bindery
