import Bindery.CommandLine.Invocation
import Bindery.Output.Write
import Bindery.Pipeline

/-!
# Running an invocation

An invocation is run on a disk.  It leaves behind what is printed, the messages that are serious
enough to be shown, and an error if it failed.
-/

namespace Bindery.CommandLine

/-- Why a command fails. -/
inductive CommandError where
  | binding (cause : BindingError)
  /-- The input cannot be loaded. -/
  | cannotLoad (path : String)
  | tree (cause : TreeError)
  | write (cause : WriteError)
  deriving DecidableEq, Repr

namespace CommandError

/-- The wording of the error. -/
def message : CommandError → String
  | .binding cause => cause.message
  | .cannotLoad path => "Failed to load \"" ++ path ++ "\""
  | .tree cause => cause.message
  | .write cause => cause.message

end CommandError

/-- What a run leaves behind. -/
structure Report where
  output : String
  log : Log
  error : Option CommandError

namespace Report

/-- The exit code of a run. -/
def exitCode (report : Report) : Nat := if report.error.isSome then 1 else 0

/-- The first line of the error message. -/
def errorLine (report : Report) : Option String :=
  report.error.map fun e => String.ofList (e.message.toList.takeWhile (· ≠ '\n'))

end Report

/-- The exit code for arguments that do not make sense. -/
def usageExitCode : Nat := 2

/-! ## What the commands do to their input -/

/-- Loads and processes a tree. -/
def processTree (config : Config) (input : String) (contents : Option String) :
    Logged (Except CommandError Tree) := do
  match ← FrontEnd.ofContents contents config.headerOptions with
  | .error _ => return .error (.cannotLoad input)
  | .ok t =>
    let processed := config.process t
    match processed.result with
    | .error e => ⟨.error (.binding e), processed.log⟩
    | .ok changes =>
      ⟨.ok processed.tree, processed.log ++
        [⟨.info, "Made " ++ Text.Decimal.text changes ++ " change(s) to the tree"⟩]⟩

/-- Loads outputs and applies the substitutions. -/
def substituteOutputs (config : Config) (input : String) (contents : Option String) :
    Logged (Except CommandError (List OutputFile)) :=
  match OutputFile.readContents contents with
  | .error _ => return .error (.cannotLoad input)
  | .ok files =>
    match config.substitute files with
    | .error e => return .error (.binding e)
    | .ok (files, changes) => do
      Logged.info ("Rewrote " ++ Text.Decimal.text changes ++ " block(s)")
      return .ok files

/-! ## Commands -/

variable {m : Type → Type} [Monad m] [Disk m]

/-- Reads the configuration. -/
def loadConfig : ConfigSource → m (Except CommandError Config)
  | .preset preset => return .ok preset.config
  | .file path => do
    match (← Disk.readFile path).bind Config.read? with
    | some config => return .ok config
    | none => return .error (.binding (.cannotReadConfig path))

/-- Writes a tree to a file, or prints it. -/
def deliverTree (t : Tree) : (output : Option String) → m (Except CommandError String)
  | none => return .ok (t.dump ++ "\n")
  | some path => do
    if ← Disk.writeFile path t.dump then return .ok ""
    else return .error (.tree .unreadable)

/-- Writes files below a directory. -/
def deliverFiles (files : List OutputFile) (directory : String) :
    m (Except CommandError String) := do
  match ← OutputFile.saveAll files directory with
  | .ok () => return .ok ""
  | .error e => return .error (.write e)

/-- Hands on what a command made of its input, unless that failed, and keeps the messages. -/
def handOn {α : Type} (made : Logged (Except CommandError α))
    (deliver : α → m (Except CommandError String)) : m (Logged (Except CommandError String)) := do
  match made.value with
  | .error e => return ⟨.error e, made.log⟩
  | .ok a => return ⟨← deliver a, made.log⟩

/-- Runs a command under a configuration; its value is what is printed. -/
def runCommand (config : Config) : Command → m (Logged (Except CommandError String))
  | .process input output => do
    let contents ← Disk.readFile input
    handOn (processTree config input contents) (deliverTree · output)
  | .substitute input directory => do
    let contents ← Disk.readFile input
    handOn (substituteOutputs config input contents) (deliverFiles · directory)
  | .config => return ⟨.ok (config.write ++ "\n"), []⟩

/-- Runs an invocation, keeping all messages. -/
def runInvocation (invocation : Invocation) : m (Logged (Except CommandError String)) := do
  match ← loadConfig invocation.source with
  | .error e => return ⟨.error e, []⟩
  | .ok config => runCommand config invocation.command

/-- The messages that are at least as serious as a level. -/
def shown (verbosity : Level) (log : Log) : Log :=
  log.filter fun message => message.level.rank ≤ verbosity.rank

/-- The report of a run. -/
def Report.ofResult (verbosity : Level) (result : Logged (Except CommandError String)) : Report :=
  match result.value with
  | .ok output => ⟨output, shown verbosity result.log, none⟩
  | .error e => ⟨"", shown verbosity result.log, some e⟩

/-- Runs a command line; there is no report if the arguments do not make sense. -/
def run (arguments : List String) : m (Option Report) := do
  match Invocation.ofArguments? arguments with
  | none => return none
  | some invocation => return some (.ofResult invocation.verbosity (← runInvocation invocation))

end Bindery.CommandLine
