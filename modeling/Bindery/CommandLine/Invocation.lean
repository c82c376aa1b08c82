import Bindery.CommandLine.Arguments
import Bindery.Config
import Bindery.Log

/-!
# Invocations

What a command line asks for: how much to say, where the configuration comes from, and one of three
commands.  `Invocation.ofArguments?` reads it from the arguments; there is nothing to run if they do
not make sense.
-/

namespace Bindery.CommandLine

/-- The configurations that are built in. -/
inductive Preset where
  | cimgui
  | empty
  deriving DecidableEq, Repr

namespace Preset

/-- The preset of a name. -/
def ofName? : String → Option Preset
  | "cimgui" => some .cimgui
  | "empty" => some .empty
  | _ => none

/-- The configuration of a preset. -/
def config : Preset → Config
  | .cimgui => .cimgui
  | .empty => .standard

end Preset

/-- Where the configuration comes from. -/
inductive ConfigSource where
  | file (path : String)
  | preset (preset : Preset)
  deriving DecidableEq, Repr

/-- What is to be done. -/
inductive Command where
  /-- Processes the tree in a file, and writes it to another or prints it. -/
  | process (input : String) (output : Option String)
  /-- Applies the substitutions to outputs in a file, and writes them below a directory. -/
  | substitute (input directory : String)
  /-- Prints the configuration. -/
  | config
  deriving DecidableEq, Repr

/-- What a command line asks for. -/
structure Invocation where
  /-- The least serious messages to be shown. -/
  verbosity : Level
  source : ConfigSource
  command : Command
  deriving DecidableEq, Repr

namespace Invocation

/-- The options that stand before the command. -/
def generalOptions : List OptionName :=
  [⟨'v', "verbosity"⟩, ⟨'c', "config"⟩, ⟨'p', "preset"⟩]

/-- The option of the command that processes a tree. -/
def processOptions : List OptionName := [⟨'o', "output"⟩]

/-- The option of the command that applies substitutions. -/
def substituteOptions : List OptionName := [⟨'o', "output-dir"⟩]

/-- The level of a name.  The finest two have no messages of their own. -/
def level? : String → Option Level
  | "error" => some .error
  | "warn" => some .warn
  | "info" | "debug" | "trace" => some .info
  | _ => none

/-- A path, which is never empty. -/
def path? (text : String) : Option String := if text = "" then none else some text

/-- Where the configuration comes from; a file goes before a preset. -/
def source? (given : Occurrences) : Option ConfigSource := do
  let preset? ← given.value? "preset" Preset.ofName?
  let file? ← given.value? "config" path?
  return file?.elim (.preset (preset?.getD .cimgui)) .file

/-- A command from its name and the arguments behind it. -/
def command? (name : String) (arguments : List String) : Option Command :=
  match name with
  | "process" => do
    let (given, input) ← readOneWord processOptions arguments
    return .process (← path? input) (← given.value? "output" path?)
  | "rewrite" => do
    let (given, input) ← readOneWord substituteOptions arguments
    let directory? ← given.value? "output-dir" path?
    return .substitute (← path? input) (← directory?)
  | "config" => do
    let (_, rest) ← readOptions [] arguments
    if rest = [] || rest = ["--"] then return .config else none
  | _ => none

/-- What the arguments ask for, if they make sense. -/
def ofArguments? (arguments : List String) : Option Invocation := do
  let (given, rest) ← readOptions generalOptions arguments
  match rest with
  | [] => none
  | name :: arguments =>
    let verbosity? ← given.value? "verbosity" level?
    return {
      verbosity := verbosity?.getD .warn
      source := ← source? given
      command := ← command? name arguments }

end Invocation

end Bindery.CommandLine
