import Bindery.Output.File
import Bindery.Text.Replace

/-!
# Substitutions in emitted text

Last fixes to what is presented: substitutions are applied in order to the text of every block
without a role, however deep it lies.  Blocks with a role hold declarations and are never touched.
A list with an empty search text is refused as a whole.
-/

namespace Bindery

open Json

/-- A text to be looked for, and what takes its place. -/
structure Substitution where
  search : String
  replacement : String
  deriving DecidableEq, Repr

namespace Substitution

/-- The document of a substitution. -/
def toJson (s : Substitution) : Json :=
  record [("from", Json.text s.search), ("to", Json.text s.replacement)]

/-- Reads a substitution. -/
def ofJson? : (budget : Nat) → Json → Option Substitution
  | _ + 1, v => do
    let fields ← fieldsOf? ["from", "to"] v
    return ⟨← fields.required? "from" asText?, ← fields.required? "to" asText?⟩
  | _, _ => none

/-- Refuses a list of substitutions in which one looks for the empty text. -/
def validate (substitutions : List Substitution) : Except WriteError Unit :=
  match substitutions.findIdx? (·.search = "") with
  | some index => .error (.emptySubstitution index)
  | none => .ok ()

/-- Applies substitutions to a text, each to what the one before it left. -/
def applyAll (substitutions : List Substitution) (text : String) : String :=
  substitutions.foldl (fun text s => Text.replace s.search s.replacement text) text

end Substitution

namespace Block

mutual

/-- The block with a function applied to every text without a role. -/
def mapPlain (f : String → String) : Block → Block
  | .mk kind text children =>
    .mk kind (if kind = .unknown then f text else text) (mapPlainAll f children)

/-- The blocks of a list, each with a function applied to every text without a role. -/
def mapPlainAll (f : String → String) : List Block → List Block
  | [] => []
  | b :: bs => mapPlain f b :: mapPlainAll f bs

end

mutual

/-- The texts without a role in a block, in the order in which it is rendered. -/
def plainTexts : Block → List String
  | .mk kind text children => (if kind = .unknown then [text] else []) ++ allPlainTexts children

/-- The texts without a role in a list of blocks. -/
def allPlainTexts : List Block → List String
  | [] => []
  | b :: bs => plainTexts b ++ allPlainTexts bs

end

end Block

namespace OutputFile

/-- Applies substitutions to the files, and counts the blocks that have changed. -/
def substitute (files : List OutputFile) (substitutions : List Substitution) :
    Except WriteError (List OutputFile × Nat) := do
  Substitution.validate substitutions
  let apply := Substitution.applyAll substitutions
  let texts := files.flatMap fun file => Block.allPlainTexts file.blocks
  return (files.map fun file => { file with blocks := Block.mapPlainAll apply file.blocks },
    texts.countP fun text => apply text ≠ text)

end OutputFile

end Bindery
