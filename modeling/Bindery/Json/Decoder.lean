import Bindery.Json.Range
import Bindery.Json.Token

/-!
# Decoding documents

The rules by which a document is taken as a value of some type.

A decoder is given a *budget*, the number of arrays and objects that may still be opened one inside
another, and fails when it runs out; `nestingLimit` is the budget of a whole document.  A decoder of
a recursive type recurses on its budget.

* A record is an object, or an array of its fields in order.  A known field may be given once;
  unknown ones are skipped without being looked at, so they cost no budget.
* A plain variant is its name, or an object that maps the name to null.
* A tagged variant is an object with the tag among its members, or an array that begins with it.
  It is taken in as a whole before its variant is known, so everything in it must be in order.
-/

namespace Bindery.Json

variable {α β : Type}

/-- How many arrays and objects may lie inside one another in a document. -/
def nestingLimit : Nat := 127

/-! ## Scalars -/

/-- A text. -/
def asText? : Json → Option String
  | .string literal => literal
  | _ => none

/-- A truth value. -/
def asBool? : Json → Option Bool
  | .bool b => some b
  | _ => none

/-- An integer of 64 bits. -/
def asInt64? : Json → Option Int64
  | .integer i =>
    if Int64.minValue.toInt ≤ i ∧ i ≤ Int64.maxValue.toInt then some (Int64.ofInt i) else none
  | _ => none

/-- A value or null. -/
def asOptional? (decode : Json → Option α) : Json → Option (Option α)
  | .null => some none
  | v => (decode v).map some

/-! ## Lists and pairs -/

/-- A list whose items are decoded with the budget that is left inside it. -/
def asList? (decode : Nat → Json → Option α) : (budget : Nat) → Json → Option (List α)
  | budget + 1, .array items => items.mapM (decode budget)
  | _, _ => none

/-- A pair, written as an array of two items. -/
def asPair? (first : Json → Option α) (second : Json → Option β) :
    (budget : Nat) → Json → Option (α × β)
  | _ + 1, .array [a, b] => do return (← first a, ← second b)
  | _, _ => none

/-! ## Records -/

/-- The known fields that a record gives, by name. -/
abbrev Fields := List (String × Json)

/-- The known fields among the members of an object. -/
def membersOf? (names : List String) (members : List (Literal × Json)) : Option Fields := do
  let named ← members.mapM fun (key, v) => key.map (·, v)
  let known := named.filter fun (key, _) => names.contains key
  if (known.map (·.1)).Nodup then some known else none

/-- The fields of a record whose fields are `names`, in this order. -/
def fieldsOf? (names : List String) : Json → Option Fields
  | .object members => membersOf? names members
  | .array items => if items.length ≤ names.length then some (names.zip items) else none
  | _ => none

namespace Fields

/-- A field that must be given. -/
def required? (fields : Fields) (name : String) (decode : Json → Option α) : Option α :=
  (fields.lookup name).bind decode

/-- A field that has a default. -/
def withDefault? (fields : Fields) (name : String) (default : α) (decode : Json → Option α) :
    Option α :=
  match fields.lookup name with
  | none => some default
  | some v => decode v

/-- A field that may be absent or null. -/
def optional? (fields : Fields) (name : String) (decode : Json → Option α) : Option (Option α) :=
  fields.withDefault? name none (asOptional? decode)

end Fields

/-! ## Variants -/

/-- A plain variant, given the names of all of them. -/
def asVariant? (variants : List (String × α)) : (budget : Nat) → Json → Option α
  | _, .string (some name) => variants.lookup name
  | _ + 1, .object [(some name, .null)] => variants.lookup name
  | _, _ => none

mutual

/-- Whether everything in a document can be taken in: each literal is a text and each number is in
range. -/
def isSound : Json → Bool
  | .null => true
  | .bool _ => true
  | .integer i => isIntegerInRange i.natAbs
  | .decimal numeral => isNumeralInRange numeral
  | .string literal => literal.isSome
  | .array items => itemsSound items
  | .object members => membersSound members

/-- Whether all items of an array can be taken in. -/
def itemsSound : List Json → Bool
  | [] => true
  | v :: vs => isSound v && itemsSound vs

/-- Whether all members of an object can be taken in. -/
def membersSound : List (Literal × Json) → Bool
  | [] => true
  | (key, v) :: ms => key.isSome && isSound v && membersSound ms

end

/-- A tagged variant: the name under `tag`, and what remains without it. -/
def asTagged? (tag : String) (budget : Nat) (v : Json) : Option (String × Json) :=
  if v.depth ≤ budget && v.isSound then
    match v with
    | .object members =>
      match members.partition (·.1 = some tag) with
      | ([(_, .string (some name))], rest) => some (name, .object rest)
      | _ => none
    | .array (.string (some name) :: rest) => some (name, .array rest)
    | _ => none
  else
    none

end Bindery.Json
