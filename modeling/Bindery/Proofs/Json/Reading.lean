import Bindery.Json.Printer
import Bindery.Json.Reader
import Bindery.Proofs.Json.Scanning

/-!
# Reading what has been written

A document that is written and read again is the same document (`read?_pretty`, `read?_compact`), if
its only numerals are integers: other numerals are kept as they were written, and nothing says that
they are numerals.

The text spells the tokens of the document (`spells_layout`, `spells_compact`), and the tokens lead
the reader to the document (`run_tokens`).
-/

namespace Bindery.Json

/-! ## Documents without other numerals -/

mutual

/-- Whether all numerals of a document are integers. -/
def isIntegral : Json → Bool
  | .decimal _ => false
  | .array items => itemsIntegral items
  | .object members => membersIntegral members
  | _ => true

/-- Whether all numerals in the items of an array are integers. -/
def itemsIntegral : List Json → Bool
  | [] => true
  | v :: vs => isIntegral v && itemsIntegral vs

/-- Whether all numerals in the values of an object are integers. -/
def membersIntegral : List (Literal × Json) → Bool
  | [] => true
  | (_, v) :: ms => isIntegral v && membersIntegral ms

end

/-! ## The text -/

open Token

variable {ts : List Token} {cs : List Char}

lemma Token.Spells.mark {x : Token} {c : Char} (htext : x.text = [c])
    (hdecimal : ∀ numeral, x ≠ .decimal numeral) (hinteger : ∀ i, x ≠ .integer i)
    (rest : Spells ts cs) : Spells (x :: ts) (c :: cs) := by
  have hspells := Spells.token hdecimal (fun i hi => absurd hi (hinteger i)) rest
  rwa [htext] at hspells

lemma spells_newline (depth : Nat) (rest : Spells ts cs) : Spells ts (newline depth ++ cs) := by
  have hblanks : ∀ n, Spells ts (List.replicate n ' ' ++ cs) := by
    intro n
    induction n with
    | zero => exact rest
    | succ n ih => exact .blank (by decide) ih
  exact .blank (by decide) (hblanks (2 * depth))

lemma stops_newline (depth : Nat) (cs : List Char) : Stops (newline depth ++ cs) :=
  stops_cons (by decide) _

/-- A key stands on a new line, with a colon and a blank behind it. -/
lemma spells_key (depth : Nat) (key : Literal) (rest : Spells ts cs) :
    Spells (.string key :: .colon :: ts) (newline depth ++ (quote key ++ ':' :: ' ' :: cs)) := by
  have hcolon : Spells (.colon :: ts) (':' :: ' ' :: cs) :=
    .mark rfl nofun nofun (.blank (by decide) rest)
  exact spells_newline depth (.token nofun nofun hcolon)

mutual

/-- A laid-out document spells its tokens, unless what follows could go on with it. -/
theorem spells_layout (depth : Nat) : (v : Json) → v.isIntegral = true →
    ∀ {ts : List Token} {cs : List Char}, Stops cs → Spells ts cs →
      Spells (v.tokens ++ ts) (layout depth v ++ cs)
  | .null, _, _, _, _, rest => Spells.token nofun nofun rest
  | .bool b, _, _, _, _, rest => Spells.token nofun nofun rest
  | .integer i, _, _, _, hstops, rest => Spells.token nofun (fun _ _ => hstops) rest
  | .decimal numeral, h, _, _, _, _ => absurd h (by simp [isIntegral])
  | .string literal, _, _, _, _, rest => Spells.token nofun nofun rest
  | .array [], _, _, _, _, rest => .mark rfl nofun nofun (.mark rfl nofun nofun rest)
  | .array (v :: vs), h, ts, cs, _, rest => by
    have hclose : Spells (.closeArray :: ts) (newline depth ++ ']' :: cs) :=
      spells_newline depth (.mark rfl nofun nofun rest)
    have hitems := spells_layoutItems (depth + 1) (v :: vs) (by simpa [isIntegral] using h)
      (stops_newline depth _) hclose
    simpa [layout, tokens] using Spells.mark (x := .openArray) rfl nofun nofun hitems
  | .object [], _, _, _, _, rest => .mark rfl nofun nofun (.mark rfl nofun nofun rest)
  | .object (m :: ms), h, ts, cs, _, rest => by
    have hclose : Spells (.closeObject :: ts) (newline depth ++ '\x7d' :: cs) :=
      spells_newline depth (.mark rfl nofun nofun rest)
    have hmembers := spells_layoutMembers (depth + 1) (m :: ms) (by simpa [isIntegral] using h)
      (stops_newline depth _) hclose
    simpa [layout, tokens] using Spells.mark (x := .openObject) rfl nofun nofun hmembers

lemma spells_layoutItems (depth : Nat) : (vs : List Json) → itemsIntegral vs = true →
    ∀ {ts : List Token} {cs : List Char}, Stops cs → Spells ts cs →
      Spells (itemTokens vs ++ ts) (layoutItems depth vs ++ cs)
  | [], _, _, _, _, rest => rest
  | [v], h, ts, cs, hstops, rest => by
    have hv : v.isIntegral = true := by simpa [itemsIntegral] using h
    have hlayout := spells_layout depth v hv hstops rest
    simpa [layoutItems, itemTokens] using spells_newline depth hlayout
  | v :: w :: vs, h, ts, cs, hstops, rest => by
    obtain ⟨hv, hvs⟩ : v.isIntegral = true ∧ itemsIntegral (w :: vs) = true := by
      simpa [itemsIntegral] using h
    have hitems := spells_layoutItems depth (w :: vs) hvs hstops rest
    have hcomma := Spells.mark (x := .comma) rfl nofun nofun hitems
    have hlayout := spells_layout depth v hv (stops_cons (by decide) _) hcomma
    simpa [layoutItems, itemTokens] using spells_newline depth hlayout

lemma spells_layoutMembers (depth : Nat) : (ms : List (Literal × Json)) →
    membersIntegral ms = true → ∀ {ts : List Token} {cs : List Char}, Stops cs → Spells ts cs →
      Spells (memberTokens ms ++ ts) (layoutMembers depth ms ++ cs)
  | [], _, _, _, _, rest => rest
  | [(key, v)], h, ts, cs, hstops, rest => by
    have hv : v.isIntegral = true := by simpa [membersIntegral] using h
    have hlayout := spells_layout depth v hv hstops rest
    simpa [layoutMembers, memberTokens] using spells_key depth key hlayout
  | (key, v) :: m :: ms, h, ts, cs, hstops, rest => by
    obtain ⟨hv, hms⟩ : v.isIntegral = true ∧ membersIntegral (m :: ms) = true := by
      simpa [membersIntegral] using h
    have hmembers := spells_layoutMembers depth (m :: ms) hms hstops rest
    have hcomma := Spells.mark (x := .comma) rfl nofun nofun hmembers
    have hlayout := spells_layout depth v hv (stops_cons (by decide) _) hcomma
    simpa [layoutMembers, memberTokens] using spells_key depth key hlayout

end

mutual

/-- Without blanks a document spells its tokens as well. -/
theorem spells_compact : (v : Json) → v.isIntegral = true →
    ∀ {ts : List Token} {cs : List Char}, Stops cs → Spells ts cs →
      Spells (v.tokens ++ ts) (v.tokens.flatMap Token.text ++ cs)
  | .null, _, _, _, _, rest => Spells.token nofun nofun rest
  | .bool b, _, ts, cs, _, rest => by
    have htoken : Spells (.bool b :: ts) (Token.text (.bool b) ++ cs) := .token nofun nofun rest
    simpa [tokens] using htoken
  | .integer i, _, ts, cs, hstops, rest => by
    have htoken : Spells (.integer i :: ts) (Token.text (.integer i) ++ cs) :=
      .token nofun (fun _ _ => hstops) rest
    simpa [tokens] using htoken
  | .decimal numeral, h, _, _, _, _ => absurd h (by simp [isIntegral])
  | .string literal, _, ts, cs, _, rest => by
    have htoken : Spells (.string literal :: ts) (Token.text (.string literal) ++ cs) :=
      .token nofun nofun rest
    simpa [tokens] using htoken
  | .array items, h, ts, cs, _, rest => by
    have hclose : Spells (.closeArray :: ts) (']' :: cs) := .mark rfl nofun nofun rest
    have hitems := spells_compactItems items (by simpa [isIntegral] using h)
      (stops_cons (by decide) _) hclose
    simpa [tokens, Token.text] using Spells.mark (x := .openArray) rfl nofun nofun hitems
  | .object members, h, ts, cs, _, rest => by
    have hclose : Spells (.closeObject :: ts) ('\x7d' :: cs) := .mark rfl nofun nofun rest
    have hmembers := spells_compactMembers members (by simpa [isIntegral] using h)
      (stops_cons (by decide) _) hclose
    simpa [tokens, Token.text] using Spells.mark (x := .openObject) rfl nofun nofun hmembers

lemma spells_compactItems : (vs : List Json) → itemsIntegral vs = true →
    ∀ {ts : List Token} {cs : List Char}, Stops cs → Spells ts cs →
      Spells (itemTokens vs ++ ts) ((itemTokens vs).flatMap Token.text ++ cs)
  | [], _, _, _, _, rest => rest
  | [v], h, _, _, hstops, rest => spells_compact v (by simpa [itemsIntegral] using h) hstops rest
  | v :: w :: vs, h, ts, cs, hstops, rest => by
    obtain ⟨hv, hvs⟩ : v.isIntegral = true ∧ itemsIntegral (w :: vs) = true := by
      simpa [itemsIntegral] using h
    have hitems := spells_compactItems (w :: vs) hvs hstops rest
    have hcomma := Spells.mark (x := .comma) rfl nofun nofun hitems
    simpa [itemTokens, Token.text] using spells_compact v hv (stops_cons (by decide) _) hcomma

lemma spells_compactMembers : (ms : List (Literal × Json)) → membersIntegral ms = true →
    ∀ {ts : List Token} {cs : List Char}, Stops cs → Spells ts cs →
      Spells (memberTokens ms ++ ts) ((memberTokens ms).flatMap Token.text ++ cs)
  | [], _, _, _, _, rest => rest
  | [(key, v)], h, ts, cs, hstops, rest => by
    have hv : v.isIntegral = true := by simpa [membersIntegral] using h
    have hcolon := Spells.mark (x := .colon) rfl nofun nofun (spells_compact v hv hstops rest)
    have hkey : Spells (.string key :: _) (Token.text (.string key) ++ _) :=
      .token nofun nofun hcolon
    simpa [memberTokens, Token.text] using hkey
  | (key, v) :: m :: ms, h, ts, cs, hstops, rest => by
    obtain ⟨hv, hms⟩ : v.isIntegral = true ∧ membersIntegral (m :: ms) = true := by
      simpa [membersIntegral] using h
    have hmembers := spells_compactMembers (m :: ms) hms hstops rest
    have hcomma := Spells.mark (x := .comma) rfl nofun nofun hmembers
    have hvalue := spells_compact v hv (stops_cons (by decide) _) hcomma
    have hcolon := Spells.mark (x := .colon) rfl nofun nofun hvalue
    have hkey : Spells (.string key :: _) (Token.text (.string key) ++ _) :=
      .token nofun nofun hcolon
    simpa [memberTokens, Token.text] using hkey

end

/-! ## The tokens -/

namespace State

variable {frames : List Frame} {rest : List Token}

/-- The first item of an array is read like any other, since no value begins with a bracket that
closes one. -/
lemma run_firstItem (v : Json) (frames : List Frame) (rest : List Token) :
    (State.firstItem frames).run (v.tokens ++ rest) =
      (State.value (.array [] :: frames)).run (v.tokens ++ rest) := by
  cases v <;> rfl

mutual

/-- The tokens of a document lead from a place where a value must follow to that value. -/
theorem run_tokens : (v : Json) → ∀ (frames : List Frame) (rest : List Token),
    (State.value frames).run (v.tokens ++ rest) = (State.complete v frames).run rest
  | .null, _, _ => rfl
  | .bool _, _, _ => rfl
  | .integer _, _, _ => rfl
  | .decimal _, _, _ => rfl
  | .string _, _, _ => rfl
  | .array [], _, _ => rfl
  | .array (v :: vs), frames, rest => by
    have hitems := run_itemTokens (v :: vs) (by simp) [] frames rest
    have hfirst : (State.firstItem frames).run (itemTokens (v :: vs) ++ .closeArray :: rest) =
        (State.value (.array [] :: frames)).run (itemTokens (v :: vs) ++ .closeArray :: rest) := by
      cases vs with
      | nil => exact run_firstItem v frames (.closeArray :: rest)
      | cons w vs =>
        rw [itemTokens, List.append_assoc]
        · exact run_firstItem v frames _
        · simp
    rw [tokens, List.cons_append, List.append_assoc]
    exact hfirst.trans hitems
  | .object [], _, _ => rfl
  | .object ((key, v) :: ms), frames, rest => by
    have hmembers := run_memberTokens ((key, v) :: ms) (by simp) [] frames rest
    rw [tokens, List.cons_append, List.append_assoc]
    refine Eq.trans ?_ hmembers
    cases ms <;> rfl

lemma run_itemTokens : (vs : List Json) → vs ≠ [] →
    ∀ (items : List Json) (frames : List Frame) (rest : List Token),
    (State.value (.array items :: frames)).run (itemTokens vs ++ .closeArray :: rest) =
      (State.complete (.array (items.reverse ++ vs)) frames).run rest
  | [], h, _, _, _ => absurd rfl h
  | [v], _, items, frames, rest => by
    have hvalue := run_tokens v (.array items :: frames) (.closeArray :: rest)
    rw [itemTokens, hvalue, ← List.reverse_cons]
    rfl
  | v :: w :: vs, _, items, frames, rest => by
    have hvalue := run_tokens v (.array items :: frames)
      (.comma :: (itemTokens (w :: vs) ++ .closeArray :: rest))
    have hitems := run_itemTokens (w :: vs) (by simp) (v :: items) frames rest
    rw [List.reverse_cons, List.append_assoc, List.singleton_append] at hitems
    rw [itemTokens, List.append_assoc, List.cons_append, hvalue, ← hitems]
    · rfl
    · simp

lemma run_memberTokens : (ms : List (Literal × Json)) → ms ≠ [] →
    ∀ (members : List (Literal × Json)) (frames : List Frame) (rest : List Token),
    (State.nextKey members frames).run (memberTokens ms ++ .closeObject :: rest) =
      (State.complete (.object (members.reverse ++ ms)) frames).run rest
  | [], h, _, _, _ => absurd rfl h
  | [(key, v)], _, members, frames, rest => by
    have hvalue := run_tokens v (.object members key :: frames) (.closeObject :: rest)
    rw [memberTokens, ← List.reverse_cons]
    exact hvalue
  | (key, v) :: m :: ms, _, members, frames, rest => by
    have hvalue := run_tokens v (.object members key :: frames)
      (.comma :: (memberTokens (m :: ms) ++ .closeObject :: rest))
    have hmembers := run_memberTokens (m :: ms) (by simp) ((key, v) :: members) frames rest
    rw [List.reverse_cons, List.append_assoc, List.singleton_append] at hmembers
    rw [memberTokens, List.cons_append, List.cons_append, List.append_assoc, List.cons_append,
      ← hmembers]
    · exact hvalue
    · simp

end

end State

/-- The tokens of a document spell that document. -/
lemma ofTokens?_tokens (v : Json) : ofTokens? v.tokens = some v := by
  have hrun := State.run_tokens v [] []
  rw [List.append_nil] at hrun
  rw [ofTokens?, hrun]
  rfl

/-- A document that is written and read again is the same. -/
theorem read?_pretty {v : Json} (h : v.isIntegral = true) : read? v.pretty = some v := by
  have hspells := spells_layout 0 v h Token.stops_nil Token.Spells.nil
  rw [List.append_nil, List.append_nil] at hspells
  rw [read?, pretty, String.toList_ofList, hspells.scan_eq, Option.bind_some, ofTokens?_tokens]

/-- The same holds of a document that is written without blanks. -/
theorem read?_compact {v : Json} (h : v.isIntegral = true) : read? v.compact = some v := by
  have hspells := spells_compact v h Token.stops_nil Token.Spells.nil
  rw [List.append_nil, List.append_nil] at hspells
  rw [read?, compact, String.toList_ofList, hspells.scan_eq, Option.bind_some, ofTokens?_tokens]

end Bindery.Json
