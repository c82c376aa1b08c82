import Bindery.Disk

/-!
# A file system

A disk in memory.  Every place in it is given by the names on the way to it, innermost first, so
the place around another is its tail and the root is the empty list.

A path is followed name by name from the root or from the current directory.  All names but the
last have to lead into directories; a segment `.` stays where it is and `..` goes one place up.
-/

namespace Bindery

/-- A place, given by the names on the way to it, innermost first. -/
abbrev Location := List String

/-- What is at a place. -/
inductive FileNode where
  | file (text : String)
  | directory
  deriving DecidableEq, Repr

/-- Files and directories, and the directory that relative paths start from. -/
structure FileSystem where
  nodes : List (Location × FileNode)
  current : Location
  deriving Repr

namespace FileSystem

/-! ## Places -/

/-- What is at a place.  The root is always a directory. -/
def node? (fs : FileSystem) : Location → Option FileNode
  | [] => some .directory
  | location => fs.nodes.lookup location

/-- Puts something at a place, instead of what is there. -/
def put (fs : FileSystem) (location : Location) (node : FileNode) : FileSystem :=
  { fs with nodes := (location, node) :: fs.nodes.filter (·.1 ≠ location) }

@[simp]
theorem node?_put_self (fs : FileSystem) (name : String) (around : Location) (node : FileNode) :
    (fs.put (name :: around) node).node? (name :: around) = some node := by
  simp [node?, put]

theorem node?_put_of_ne (fs : FileSystem) {location other : Location} (node : FileNode)
    (h : other ≠ location) : (fs.put location node).node? other = fs.node? other := by
  cases other with
  | nil => rfl
  | cons name around =>
    have hb : (name :: around == location) = false := beq_eq_false_iff_ne.2 h
    simp only [node?, put, List.lookup_cons, hb]
    induction fs.nodes with
    | nil => rfl
    | cons entry entries ih =>
      obtain ⟨place, found⟩ := entry
      by_cases he : place = location
      · simpa [he, List.lookup_cons, hb] using ih
      · simp only [ne_eq, decide_not, List.filter_cons, he, decide_false, Bool.not_false, if_true,
          List.lookup_cons]
        split
        · rfl
        · simpa using ih

/-! ## Following paths -/

/-- Why a path leads nowhere. -/
inductive LostPath where
  /-- A name on the way is missing. -/
  | missing
  /-- A name on the way is that of a file, or cannot be used at all. -/
  | blocked
  deriving DecidableEq, Repr

/-- The greatest number of bytes in a name. -/
def nameLimit : Nat := 255

/-- The greatest number of bytes in a path. -/
def pathLimit : Nat := 4095

/-- Whether a text can be used as a path. -/
def isUsable (path : String) : Bool :=
  path ≠ "" && path.utf8ByteSize ≤ pathLimit && !path.toList.contains '\x00'

/-- Whether a text can be used as a name. -/
def isNameUsable (name : String) : Bool := name.utf8ByteSize ≤ nameLimit

/-- The directory that segments lead to from another one. -/
def enter (fs : FileSystem) (start : Location) : List (List Char) → Except LostPath Location
  | [] => .ok start
  | segment :: segments =>
    if Path.isBlank segment then fs.enter start segments
    else if segment = ['.', '.'] then fs.enter start.tail segments
    else
      let name := String.ofList segment
      if isNameUsable name then
        match fs.node? (name :: start) with
        | some .directory => fs.enter (name :: start) segments
        | some (.file _) => .error .blocked
        | none => .error .missing
      else .error .blocked

/-- Where a path starts. -/
def start (fs : FileSystem) (path : String) : Location :=
  if Path.isAbsolute path then [] else fs.current

/-- The place of a last segment in the directory that the segments before it lead to.  A segment
that is no name gives no place. -/
def place (fs : FileSystem) (path : String) (before : List (List Char)) (last : List Char) :
    Except LostPath Location := do
  let around ← fs.enter (fs.start path) before
  if Path.isBlank last || last = ['.', '.'] || !isNameUsable (String.ofList last) then
    .error .blocked
  else .ok (String.ofList last :: around)

/-- The place that the segments of a path lead to, given from the last to the first. -/
def placeOf (fs : FileSystem) (path : String) : List (List Char) → Except LostPath Location
  | [] => .error .blocked
  | last :: before => fs.place path before.reverse last

/-- The place of a file. -/
def locate (fs : FileSystem) (path : String) : Except LostPath Location :=
  if isUsable path then fs.placeOf path (Path.segments path.toList).reverse else .error .blocked

/-- The place of a directory that is to be made; slashes may follow its name. -/
def locateDirectory (fs : FileSystem) (path : String) : Except LostPath Location :=
  if isUsable path then
    fs.placeOf path ((Path.segments path.toList).reverse.dropWhile (·.isEmpty))
  else .error .blocked

/-! ## Operations -/

/-- The text of the file at a path. -/
def read (fs : FileSystem) (path : String) : Option String :=
  match fs.locate path with
  | .error _ => none
  | .ok location =>
    match fs.node? location with
    | some (.file text) => some text
    | _ => none

/-- Writes the file at a path, if there is no directory. -/
def write (fs : FileSystem) (path text : String) : Option FileSystem :=
  match fs.locate path with
  | .error _ => none
  | .ok location =>
    match fs.node? location with
    | some .directory => none
    | _ => some (fs.put location (.file text))

/-- Makes a directory where there is nothing. -/
def make (fs : FileSystem) (path : String) : MakeResult × FileSystem :=
  match fs.locateDirectory path with
  | .error .missing => (.noParent, fs)
  | .error .blocked => (.refused, fs)
  | .ok location =>
    match fs.node? location with
    | some _ => (.refused, fs)
    | none => (.made, fs.put location .directory)

/-- Whether a path leads to a directory. -/
def hasDirectory (fs : FileSystem) (path : String) : Bool :=
  isUsable path && (fs.enter (fs.start path) (Path.segments path.toList)).toBool

instance : Disk (StateM FileSystem) where
  readFile path := fun fs => (fs.read path, fs)
  writeFile path text := fun fs =>
    match fs.write path text with
    | some written => (true, written)
    | none => (false, fs)
  makeDirectory path := fun fs => fs.make path
  isDirectory path := fun fs => (fs.hasDirectory path, fs)

end FileSystem

end Bindery
