/-!
# Edit distance

The least number of single-character insertions, deletions and replacements that turn one text
into another.  It is computed row by row: the row of a prefix `a` of the first text lists the
distances between `a` and every prefix of the second, shortest prefix first.
-/

namespace Bindery.Text

/-- The rest of a row: `left` is the distance just written, `corner` the one above it, and the list
holds the distances above that are still to be passed. -/
def extendRow (c : Char) : (left corner : Nat) → (other : List Char) → (above : List Nat) → List Nat
  | left, corner, b :: bs, up :: ups =>
    let d := min (min left up + 1) (corner + if c = b then 0 else 1)
    d :: extendRow c d up bs ups
  | _, _, _, _ => []

/-- The row of a prefix one character longer. -/
def nextRow (other : List Char) (row : List Nat) (c : Char) : List Nat :=
  match row with
  | [] => []
  | corner :: above => (corner + 1) :: extendRow c (corner + 1) corner other above

/-- The edit distance between two texts, counted in characters. -/
def editDistance (a b : String) : Nat :=
  (a.toList.foldl (nextRow b.toList) (List.range (b.toList.length + 1))).getLastD 0

end Bindery.Text
