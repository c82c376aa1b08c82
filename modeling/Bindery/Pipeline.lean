import Bindery.Config
import Bindery.Emitter
import Bindery.Naming.Normalize
import Bindery.Pass.Run
import Bindery.Tree.Loading

/-!
# The way from a tree to output files

The stages of a configuration, in their fixed order: declarations are kept out, names are
normalised, passes run, an emitter makes files of the tree, and substitutions are applied to them.
The first failure ends the way, and nothing behind it is done.

What can be checked without a tree is checked before anything else (`Config.validate`).
-/

namespace Bindery

/-- Why a binding cannot be made. -/
inductive BindingError where
  | tree (cause : TreeError)
  | passes (cause : PassError)
  | write (cause : WriteError)
  /-- The headers cannot be parsed, for a reason in the words of the front end. -/
  | frontEnd (reason : String)
  /-- The emitter failed, for a reason in its own words. -/
  | emit (reason : String)
  /-- The file of the configuration cannot be read, or is none. -/
  | cannotReadConfig (path : String)
  /-- A file cannot be read or written. -/
  | inaccessible
  /-- A text cannot be read as a document, or a value not be written as one. -/
  | malformed
  deriving DecidableEq, Repr

namespace BindingError

/-- The wording of the error. -/
def message : BindingError → String
  | .tree _ => "Error in declaration tree"
  | .passes _ => "Error running passes"
  | .write _ => "Error writing outputs"
  | .frontEnd _ => "Front end failed to parse headers"
  | .emit _ => "Emitter failed"
  | .cannotReadConfig path => "Failed to read config \"" ++ path ++ "\""
  | .inaccessible => "I/O error"
  | .malformed => "JSON error"

/-- The messages of the errors behind this one.  What the operating system or the reader of a
document says is left out. -/
def causes : BindingError → List String
  | .tree cause => [cause.message]
  | .passes cause => cause.message :: cause.causes
  | .write cause => [cause.message]
  | .frontEnd reason => [reason]
  | .emit reason => [reason]
  | .cannotReadConfig _ | .inaccessible | .malformed => []

end BindingError

/-- What makes a tree of headers, or says why it cannot. -/
abbrev FrontEnd := HeaderOptions → Logged (Except BindingError Tree)

namespace FrontEnd

/-- What is said about a tree that has been read. -/
def summary (t : Tree) : String :=
  "Loaded " ++ Text.Decimal.text t.size ++ " declarations from " ++
    Text.Decimal.text t.translationUnits.length ++ " translation unit(s)"

/-- Reads the tree from the document of one that was dumped before.  Include directories and
defines had their effect when that was done, so only the headers matter. -/
def ofText (text : String) : FrontEnd := fun options => do
  match ← Tree.load text options.headers with
  | .error e => return .error (.tree e)
  | .ok t => do
    Logged.info (summary t)
    return .ok t

/-- Reads the tree from the contents of a file, if there is one. -/
def ofContents (contents : Option String) : FrontEnd :=
  match contents with
  | some text => ofText text
  | none => fun _ => return .error (.tree .unreadable)

end FrontEnd

namespace Config

/-! ## The stages -/

/-- Checks what can be checked without a tree: first the passes, then the substitutions. -/
def validate (config : Config) : Except BindingError Unit := do
  (Pass.checkOrder config.passes).mapError .passes
  (Substitution.validate config.substitutions).mapError .write

/-- Keeps declarations out and normalises names. -/
def prepare (config : Config) (t : Tree) : Outcome BindingError :=
  match config.validate with
  | .error e => .fail t e
  | .ok () =>
    let suppressed := t.suppress config.suppressed
    (suppressed.andThen fun t =>
      t.normaliseNames config.namePrefix config.renames config.capitalised).mapError .passes

/-- Runs the passes. -/
def applyPasses (config : Config) (t : Tree) : Outcome BindingError :=
  (t.applyPasses config.passes).mapError .passes

/-- Everything that happens to a tree before it is emitted. -/
def process (config : Config) (t : Tree) : Outcome BindingError :=
  (config.prepare t).andThen config.applyPasses

/-- Applies the substitutions to emitted files, and counts the blocks that have changed. -/
def substitute (config : Config) (files : List OutputFile) :
    Except BindingError (List OutputFile × Nat) :=
  (OutputFile.substitute files config.substitutions).mapError .write

/-! ## All stages -/

/-- Emits a tree and applies the substitutions. -/
def emit (config : Config) (emitter : Emitter) (t : Tree) :
    Except BindingError (List OutputFile) := do
  let files ← (emitter t).mapError .emit
  let (files, _) ← config.substitute files
  return files

/-- What is said about the files that have been generated. -/
def summary (config : Config) (files : List OutputFile) : String :=
  "Generated " ++ Text.Decimal.text files.length ++ " file(s) for " ++ config.libraryName

/-- The stages that follow reading: the tree and the files that come of it. -/
def generate (config : Config) (emitter : Emitter) (t : Tree) :
    Logged (Except BindingError (Tree × List OutputFile)) :=
  let processed := config.process t
  match processed.result with
  | .error e => ⟨.error e, processed.log⟩
  | .ok _ =>
    match config.emit emitter processed.tree with
    | .error e => ⟨.error e, processed.log⟩
    | .ok files =>
      ⟨.ok (processed.tree, files), processed.log ++ [⟨.info, config.summary files⟩]⟩

/-- The whole way from headers to files. -/
def run (config : Config) (frontEnd : FrontEnd) (emitter : Emitter) :
    Logged (Except BindingError (Tree × List OutputFile)) :=
  match config.validate with
  | .error e => return .error e
  | .ok () => do
    match ← frontEnd config.headerOptions with
    | .error e => return .error e
    | .ok t => config.generate emitter t

end Config

end Bindery
