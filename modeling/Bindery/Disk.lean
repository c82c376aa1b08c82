import Bindery.Path

/-!
# Disks

What a program needs of the place where its files are: reading and writing a file, and making a
directory.  A monad with these operations is a `Disk`; nothing is assumed about how they work.

`createDirectories` makes a directory together with those around it that are missing.
-/

namespace Bindery

/-- What became of an attempt to make a directory. -/
inductive MakeResult where
  | made
  /-- The directory it was to be made in is missing. -/
  | noParent
  /-- Something is there already, or the path cannot be used. -/
  | refused
  deriving DecidableEq, Repr

/-- Operations on files by their paths. -/
class Disk (m : Type → Type) where
  /-- The text of a file, if it can be read. -/
  readFile : (path : String) → m (Option String)
  /-- Writes a file, in place of one that is there; the answer says whether it worked. -/
  writeFile : (path text : String) → m Bool
  /-- Makes a directory. -/
  makeDirectory : (path : String) → m MakeResult
  /-- Whether a path leads to a directory. -/
  isDirectory : (path : String) → m Bool

namespace Disk

variable {m : Type → Type} [Monad m] [Disk m]

/-- Makes the first directory of a list, of which each lies in the next.  Where that one is missing
it is made before.  What stands in the way does no harm if it is a directory, and the empty path
means the place where the program runs. -/
def createAlong : (paths : List String) → m Bool
  | [] => return false
  | path :: parents => do
    if path = "" then return true
    match ← makeDirectory path with
    | .made => return true
    | .refused => isDirectory path
    | .noParent =>
      if ← createAlong parents then
        match ← makeDirectory path with
        | .made => return true
        | _ => isDirectory path
      else return false

/-- Makes a directory and those around it, as far as they are missing. -/
def createDirectories (path : String) : m Bool := createAlong (path :: Path.parents path)

end Disk

end Bindery
