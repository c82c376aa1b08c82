/-!
# Paths

A path is a text whose segments are separated by slashes.  Two readings of it are used.

`components` are what a path means by itself: doubled slashes and segments `.` say nothing, except
for a leading `.`; `endsWith` compares paths by their components, so `a.h` is an ending of
`include/a.h` but not of `xa.h`.

`parents` and `join` keep the text: a parent is the part of the text before the last component,
without the slashes and dots that separate it, and joining adds a slash where there is none.
-/

namespace Bindery.Path

/-- The segments of a path, those between and around its slashes. -/
def segments : List Char → List (List Char)
  | [] => [[]]
  | c :: cs =>
    if c = '/' then [] :: segments cs
    else
      match segments cs with
      | [] => [[c]]
      | s :: ss => (c :: s) :: ss

/-- Segments with slashes between them. -/
def ofSegments (segs : List (List Char)) : List Char := List.intercalate ['/'] segs

/-- Whether a segment separates like a slash and says nothing more. -/
def isBlank (segment : List Char) : Bool := segment = [] || segment = ['.']

/-! ## Components -/

/-- A step that a path takes. -/
inductive Component where
  | root
  /-- A leading dot. -/
  | current
  | parent
  | name (text : String)
  deriving DecidableEq, Repr

namespace Component

/-- The component of a segment that is not blank. -/
def ofSegment (segment : List Char) : Component :=
  if segment = ['.', '.'] then .parent else .name (String.ofList segment)

end Component

/-- The part of a path that decides where it starts, and the rest.  A path starts at the root, at
the current place given by a leading dot, or there without saying so. -/
def splitStart : List Char → List Char × List Char
  | '/' :: rest => (['/'], rest)
  | ['.'] => (['.'], [])
  | '.' :: '/' :: rest => (['.'], '/' :: rest)
  | cs => ([], cs)

/-- The components of a path. -/
def components (path : String) : List Component :=
  let (start, body) := splitStart path.toList
  let first : List Component :=
    if start = ['/'] then [.root] else if start = ['.'] then [.current] else []
  first ++ ((segments body).filter (!isBlank ·)).map Component.ofSegment

/-- Whether the last components of a path are those of another. -/
def endsWith (path ending : String) : Bool := (components ending).isSuffixOf (components path)

/-! ## Parents -/

/-- The texts of a path and its parents, longest first, given its start and its segments from the
last to the first. -/
def prefixes (start : List Char) : List (List Char) → List String
  | [] =>
    if start = ['.'] then [".", ""] else [String.ofList start]
  | s :: rest =>
    if isBlank s then prefixes start rest
    else String.ofList (start ++ ofSegments (s :: rest).reverse) :: prefixes start rest

/-- The parents of a path, nearest first.  A relative path ends at the empty path, an absolute one
at the root. -/
def parents (path : String) : List String :=
  let (start, body) := splitStart path.toList
  (prefixes start (segments body).reverse).drop 1

/-- The nearest parent of a path. -/
def parent? (path : String) : Option String := (parents path).head?

/-! ## Joining -/

/-- Whether a path starts at the root. -/
def isAbsolute (path : String) : Bool := path.toList.head? = some '/'

/-- The path of `path` seen from `directory`.  An absolute path stays as it is. -/
def join (directory path : String) : String :=
  if isAbsolute path || directory = "" then path
  else if directory.toList.getLast? = some '/' then directory ++ path
  else directory ++ "/" ++ path

end Bindery.Path
