/-!
# Comparing two texts

Two texts agree when they consist of the same lines.  A line carries its own ending, so agreement
is equality: `"a"` and `"a\n"` differ.
-/

namespace Bindery.Text

/-- The outcome of a comparison that failed. -/
inductive ComparisonFailure where
  /-- The two texts differ in some line. -/
  | different
  deriving DecidableEq, Repr

namespace ComparisonFailure

/-- The wording of the failure. -/
def message : ComparisonFailure → String
  | .different => "Comparison failed"

end ComparisonFailure

/-- Succeeds exactly when the two texts have the same lines. -/
def compare (left right : String) : Except ComparisonFailure Unit :=
  if left = right then .ok () else .error .different

end Bindery.Text
