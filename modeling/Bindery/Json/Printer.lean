import Bindery.Json.Token

/-!
# Writing a document

A document is written in two ways: `compact`, without blanks, and `pretty`, with every item and
member on a line of its own, two blanks deeper than what encloses it, and a blank after each colon.
Empty arrays and objects stay on one line in both.
-/

namespace Bindery.Json

/-! ## The tokens of a document -/

mutual

/-- The tokens of a document, in order. -/
def tokens : Json → List Token
  | .null => [.null]
  | .bool b => [.bool b]
  | .integer i => [.integer i]
  | .decimal numeral => [.decimal numeral]
  | .string literal => [.string literal]
  | .array items => .openArray :: (itemTokens items ++ [.closeArray])
  | .object members => .openObject :: (memberTokens members ++ [.closeObject])

/-- The tokens of the items of an array, with commas between them. -/
def itemTokens : List Json → List Token
  | [] => []
  | [v] => tokens v
  | v :: vs => tokens v ++ .comma :: itemTokens vs

/-- The tokens of the members of an object, with commas between them. -/
def memberTokens : List (Literal × Json) → List Token
  | [] => []
  | [(key, v)] => .string key :: .colon :: tokens v
  | (key, v) :: ms => .string key :: .colon :: (tokens v ++ .comma :: memberTokens ms)

end

/-- The text of a document without blanks. -/
def compact (v : Json) : String :=
  String.ofList (v.tokens.flatMap Token.text)

/-! ## Laid out in lines -/

/-- A line break and the blanks that follow it at a depth. -/
def newline (depth : Nat) : List Char := '\n' :: List.replicate (2 * depth) ' '

mutual

/-- The laid-out text of a document that stands at a depth. -/
def layout (depth : Nat) : Json → List Char
  | .array [] => ['[', ']']
  | .array (v :: vs) => '[' :: (layoutItems (depth + 1) (v :: vs) ++ newline depth ++ [']'])
  | .object [] => ['\x7b', '\x7d']
  | .object (m :: ms) =>
    '\x7b' :: (layoutMembers (depth + 1) (m :: ms) ++ newline depth ++ ['\x7d'])
  | .null => Token.text .null
  | .bool b => Token.text (.bool b)
  | .integer i => Token.text (.integer i)
  | .decimal numeral => Token.text (.decimal numeral)
  | .string literal => Token.text (.string literal)

/-- The items of an array, each on a new line. -/
def layoutItems (depth : Nat) : List Json → List Char
  | [] => []
  | [v] => newline depth ++ layout depth v
  | v :: vs => newline depth ++ layout depth v ++ ',' :: layoutItems depth vs

/-- The members of an object, each on a new line. -/
def layoutMembers (depth : Nat) : List (Literal × Json) → List Char
  | [] => []
  | [(key, v)] => newline depth ++ Token.quote key ++ ':' :: ' ' :: layout depth v
  | (key, v) :: ms =>
    newline depth ++ Token.quote key ++ ':' :: ' ' :: layout depth v ++
      ',' :: layoutMembers depth ms

end

/-- The text of a document laid out in lines. -/
def pretty (v : Json) : String := String.ofList (layout 0 v)

end Bindery.Json
