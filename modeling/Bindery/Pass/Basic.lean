import Bindery.Json.Decoder
import Bindery.Pass.Error

/-!
# Passes and their order

A binding lists the structural passes it wants.  A pass may be listed once, and a pass that needs
the output of another has to come after it; `checkOrder` refuses any other list.
-/

namespace Bindery

open Json

/-- A structural pass with its settings. -/
inductive Pass where
  /-- Makes methods of free functions; the setting drops a leading class name from the names. -/
  | promoteFunctions (stripClassPrefix : Bool)
  | separateNames
  | classifyEnums
  | inheritDefaults
  | dropDefaults
  | publishNestedTypes
  | leaveHandlesToHand
  deriving DecidableEq, Repr

namespace Pass

/-- Which pass it is, whatever its settings. -/
def kind : Pass → PassKind
  | .promoteFunctions _ => .promoteFunctions
  | .separateNames => .separateNames
  | .classifyEnums => .classifyEnums
  | .inheritDefaults => .inheritDefaults
  | .dropDefaults => .dropDefaults
  | .publishNestedTypes => .publishNestedTypes
  | .leaveHandlesToHand => .leaveHandlesToHand

/-- The name of the pass. -/
def name (pass : Pass) : String := pass.kind.name

/-- All passes with their default settings, in the order in which they work together. -/
def standard : List Pass :=
  [.promoteFunctions false, .separateNames, .classifyEnums, .inheritDefaults, .dropDefaults,
    .publishNestedTypes, .leaveHandlesToHand]

/-! ## Documents -/

/-- The setting of the first pass in a document. -/
def settings : Pass → List (String × Json)
  | .promoteFunctions stripClassPrefix => [("strip_class_prefix", .bool stripClassPrefix)]
  | _ => []

/-- The document of a pass. -/
def toJson (pass : Pass) : Json :=
  record (("pass", Json.text pass.name) :: pass.settings)

/-- A pass that has no settings. -/
def withoutSettings (rest : Json) (pass : Pass) : Option Pass :=
  (fieldsOf? [] rest).map fun _ => pass

/-- Reads a pass. -/
def ofJson? (budget : Nat) (v : Json) : Option Pass := do
  let (name, rest) ← asTagged? "pass" budget v
  match name with
  | "function_to_instance_method" => do
    let fields ← fieldsOf? ["strip_class_prefix"] rest
    return .promoteFunctions (← fields.withDefault? "strip_class_prefix" false asBool?)
  | "check_duplicated_names" => withoutSettings rest .separateNames
  | "check_flag_enums" => withoutSettings rest .classifyEnums
  | "fix_default_param_values_of_overrides" => withoutSettings rest .inheritDefaults
  | "handle_default_param_values" => withoutSettings rest .dropDefaults
  | "make_protected_nested_types_public" => withoutSettings rest .publishNestedTypes
  | "pointer_typedef_properties" => withoutSettings rest .leaveHandlesToHand
  | _ => none

/-! ## Order -/

/-- Pairs of passes of which the second needs the output of the first. -/
def dependencies : List (PassKind × PassKind) :=
  [(.promoteFunctions, .separateNames), (.promoteFunctions, .publishNestedTypes)]

/-- The first pass of a list that stands in it a second time, or among those `seen` before it. -/
def repeated? (seen : List PassKind) : List PassKind → Option PassKind
  | [] => none
  | kind :: kinds => if kind ∈ seen then some kind else repeated? (kind :: seen) kinds

/-- Whether `later` is listed, and `earlier` behind it. -/
def isReversed (kinds : List PassKind) (earlier later : PassKind) : Bool :=
  match kinds.idxOf? earlier, kinds.idxOf? later with
  | some e, some l => l < e
  | _, _ => false

/-- Checks a list of passes for repetitions, then for passes that come before one they need. -/
def checkOrder (passes : List Pass) : Except PassError Unit :=
  let kinds := passes.map kind
  match repeated? [] kinds with
  | some kind => .error (.duplicatePass kind)
  | none =>
    match dependencies.find? fun (earlier, later) => isReversed kinds earlier later with
    | some (earlier, later) => .error (.passOrder earlier later)
    | none => .ok ()

/-- The passes in their usual order form a valid list. -/
theorem checkOrder_standard : checkOrder standard = .ok () := rfl

end Pass

end Bindery
