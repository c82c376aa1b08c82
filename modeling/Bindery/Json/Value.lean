/-!
# Documents

The values a document can hold.  Three things are kept that a plain reading would lose, because the
meaning of a document depends on them:

* the members of an object stay in order, and a key may be written twice;
* a numeral with a fraction or an exponent, and the numeral `-0`, are kept as text: they are not
  integers, whatever their value;
* a string literal may leave a surrogate unpaired, and then it names no text at all.
-/

namespace Bindery

/-- What a string literal denotes: a text, or nothing if an escape in it leaves a surrogate
unpaired. -/
abbrev Literal := Option String

/-- A document. -/
inductive Json where
  | null
  | bool (value : Bool)
  /-- A numeral without fraction and exponent. -/
  | integer (value : Int)
  /-- Any other numeral, as it is written. -/
  | decimal (numeral : String)
  | string (literal : Literal)
  | array (items : List Json)
  | object (members : List (Literal × Json))
  deriving Inhabited

namespace Json

/-! ## Building documents -/

/-- The document of a text. -/
def text (s : String) : Json := .string (some s)

/-- The document of a natural number. -/
def nat (n : Nat) : Json := .integer n

/-- An object given by its members in order. -/
def record (members : List (String × Json)) : Json :=
  .object (members.map fun (key, value) => (some key, value))

/-- The document of a list. -/
def ofList {α : Type} (encode : α → Json) (items : List α) : Json :=
  .array (items.map encode)

/-- The document of an integer of 64 bits. -/
def ofInt64 (value : Int64) : Json := .integer value.toInt

/-- A member that is written only under a condition. -/
def memberIf (shown : Bool) (key : String) (value : Json) : List (String × Json) :=
  if shown then [(key, value)] else []

/-- A member that is written only if there is a value for it. -/
def memberOf? {α : Type} (key : String) (encode : α → Json) : Option α → List (String × Json)
  | some a => [(key, encode a)]
  | none => []

/-- A member that is written only if its list has items. -/
def memberOfList {α : Type} (key : String) (encode : α → Json) (items : List α) :
    List (String × Json) :=
  memberIf (!items.isEmpty) key (ofList encode items)

/-! ## Nesting -/

mutual

/-- How many arrays and objects lie inside one another at the deepest place. -/
def depth : Json → Nat
  | .array items => itemsDepth items + 1
  | .object members => membersDepth members + 1
  | _ => 0

/-- The greatest depth of the items of an array. -/
def itemsDepth : List Json → Nat
  | [] => 0
  | v :: vs => max (depth v) (itemsDepth vs)

/-- The greatest depth of the values of an object. -/
def membersDepth : List (Literal × Json) → Nat
  | [] => 0
  | (_, v) :: ms => max (depth v) (membersDepth ms)

end

end Json

end Bindery
