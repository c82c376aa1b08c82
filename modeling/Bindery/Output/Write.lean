import Bindery.Disk
import Bindery.Output.File

/-!
# Writing output files

Files are written below one directory, in order.  The directories on the way to a file are made as
needed.  The first file that cannot be written ends the writing; those before it stay.
-/

namespace Bindery.OutputFile

variable {m : Type → Type} [Monad m] [Disk m]

/-- Makes a directory, or gives the error that it cannot be made. -/
def ensureDirectory (path : String) : m (Except WriteError Unit) := do
  if ← Disk.createDirectories path then return .ok ()
  else return .error (.cannotMakeDirectory path)

/-- Makes the directory that the last name of a path lies in.  Some paths have none. -/
def ensureParent (path : String) : m (Except WriteError Unit) :=
  match Path.parent? path with
  | some parent => ensureDirectory parent
  | none => return .ok ()

/-- Writes one file below a directory. -/
def save (directory : String) (file : OutputFile) : m (Except WriteError Unit) := do
  let path := Path.join directory file.name
  match ← ensureParent path with
  | .error e => return .error e
  | .ok () =>
    if ← Disk.writeFile path file.render then return .ok ()
    else return .error (.cannotWrite path)

/-- Writes files below a directory that is there already, up to the first that fails. -/
def saveEach (directory : String) : List OutputFile → m (Except WriteError Unit)
  | [] => return .ok ()
  | file :: files => do
    match ← save directory file with
    | .error e => return .error e
    | .ok () => saveEach directory files

/-- Writes files below a directory. -/
def saveAll (files : List OutputFile) (directory : String) : m (Except WriteError Unit) := do
  match ← ensureDirectory directory with
  | .error e => return .error e
  | .ok () => saveEach directory files

end Bindery.OutputFile
