import Bindery.Pass.Basic
import Bindery.Pass.DuplicateNames
import Bindery.Pass.FlagEnums
import Bindery.Pass.PointerTypedefs
import Bindery.Pass.Promotion
import Bindery.Pass.TrailingDefaults
import Bindery.Pass.Visibility

/-!
# Running passes

A list of passes is checked first and then run one after another.  The number of changes is that of
all passes together; a pass that changes nothing is not worth a message.
-/

namespace Bindery

namespace Pass

/-- Runs one pass. -/
def run (pass : Pass) (t : Tree) : Outcome PassError :=
  match pass with
  | .promoteFunctions stripClassPrefix => t.promoteFunctions stripClassPrefix
  | .separateNames => .ofProgress t.separateAllNames
  | .classifyEnums => .ofProgress t.classifyEnums
  | .inheritDefaults => .ofProgress t.inheritDefaults
  | .dropDefaults => .ofProgress t.dropDefaults
  | .publishNestedTypes => .ofProgress t.publishNestedTypes
  | .leaveHandlesToHand => .ofProgress t.leaveHandlesToHand

/-- What is said about a pass that made changes. -/
def summary (pass : Pass) (changes : Nat) : Log :=
  if changes = 0 then []
  else [⟨.info, pass.name ++ ": " ++ Text.Decimal.text changes ++ " change(s)"⟩]

/-- Runs one pass as part of a list. -/
def runListed (pass : Pass) (t : Tree) : Outcome PassError :=
  ((pass.run t).mapError (.passFailed pass.kind)).logging pass.summary

/-- Runs passes in order. -/
def runInOrder : List Pass → Tree → Outcome PassError
  | [], t => .unchanged t
  | pass :: passes, t => (pass.runListed t).andThen (runInOrder passes)

end Pass

namespace Tree

/-- Checks a list of passes and runs them in order. -/
def applyPasses (t : Tree) (passes : List Pass) : Outcome PassError :=
  match Pass.checkOrder passes with
  | .error e => .fail t e
  | .ok () => Pass.runInOrder passes t

end Tree

end Bindery
