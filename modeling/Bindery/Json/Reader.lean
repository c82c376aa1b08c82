import Bindery.Json.Token

/-!
# Reading a document

The tokens of a text are read from left to right by a machine whose state says what may come next
and which arrays and objects are still open.  Each token leads to one next state or is refused, so
reading is a fold over the tokens.

There is no limit on nesting here: a limit is the business of those who use the document.
-/

namespace Bindery.Json

/-- An array or object that has been opened and not yet closed.  What it holds so far is in reverse
order. -/
inductive Frame where
  | array (items : List Json)
  | object (members : List (Literal × Json)) (key : Literal)
  deriving Inhabited

/-- What may come next, with the open frames, innermost first. -/
inductive State where
  /-- A value must follow. -/
  | value (frames : List Frame)
  /-- An array was just opened: its first item or its end. -/
  | firstItem (frames : List Frame)
  /-- An object was just opened: its first key or its end. -/
  | firstKey (frames : List Frame)
  /-- Another key must follow the members read so far. -/
  | nextKey (members : List (Literal × Json)) (frames : List Frame)
  /-- A colon must follow the key. -/
  | colon (members : List (Literal × Json)) (key : Literal) (frames : List Frame)
  /-- A value is complete. -/
  | complete (value : Json) (frames : List Frame)
  deriving Inhabited

namespace State

/-- The state after a token at a place where a value may begin. -/
def beginValue (frames : List Frame) : Token → Option State
  | .null => some (.complete .null frames)
  | .bool b => some (.complete (.bool b) frames)
  | .integer i => some (.complete (.integer i) frames)
  | .decimal numeral => some (.complete (.decimal numeral) frames)
  | .string literal => some (.complete (.string literal) frames)
  | .openArray => some (.firstItem frames)
  | .openObject => some (.firstKey frames)
  | _ => none

/-- The state after one more token. -/
def step : State → Token → Option State
  | .value frames, token => beginValue frames token
  | .firstItem frames, .closeArray => some (.complete (.array []) frames)
  | .firstItem frames, token => beginValue (.array [] :: frames) token
  | .firstKey frames, .closeObject => some (.complete (.object []) frames)
  | .firstKey frames, .string key => some (.colon [] key frames)
  | .nextKey members frames, .string key => some (.colon members key frames)
  | .colon members key frames, .colon => some (.value (.object members key :: frames))
  | .complete v (.array items :: frames), .comma => some (.value (.array (v :: items) :: frames))
  | .complete v (.array items :: frames), .closeArray =>
    some (.complete (.array (v :: items).reverse) frames)
  | .complete v (.object members key :: frames), .comma =>
    some (.nextKey ((key, v) :: members) frames)
  | .complete v (.object members key :: frames), .closeObject =>
    some (.complete (.object ((key, v) :: members).reverse) frames)
  | _, _ => none

/-- The state after a list of tokens. -/
def run : State → List Token → Option State
  | state, [] => some state
  | state, token :: tokens => (state.step token).bind (run · tokens)

/-- The document that has been read when no token is left. -/
def result? : State → Option Json
  | .complete v [] => some v
  | _ => none

end State

/-- The document a list of tokens spells. -/
def ofTokens? (tokens : List Token) : Option Json :=
  ((State.value []).run tokens).bind State.result?

/-- The document a text spells. -/
def read? (text : String) : Option Json :=
  (Token.scan text.toList).bind ofTokens?

end Bindery.Json
