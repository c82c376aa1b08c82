import Bindery.Json.Token
import Mathlib.Tactic.SplitIfs

/-!
# Scanning what has been written

Reading a written token gives that token back, and leaves what follows it.

* `scanString_escape`: the characters of a string come back, whatever they are.
* `scanNumeral_integerText`: so does an integer, unless what follows could go on with it.
* `scanOne_text`: both of these, and the tokens without content.
* `Spells.scan_eq`: a text that spells a list of tokens is scanned into them.
-/

namespace Bindery.Json.Token

/-! ## Strings -/

lemma hexQuad?_control {n : Nat} (h : n < 0x20) :
    hexQuad? '0' '0' (hexDigit (n / 16)) (hexDigit (n % 16)) = some n := by
  have key : ∀ n < 0x20, hexQuad? '0' '0' (hexDigit (n / 16)) (hexDigit (n % 16)) = some n := by
    decide
  exact key n h

/-- What is read after a character of a string. -/
def scanAfter (c : Char) (rest : List Char) : Option (List Unit16 × List Char) :=
  (scanString rest).map fun (units, rest) => (.char c :: units, rest)

lemma scanString_letter {e c : Char} (h : escaped? e = some c) (rest : List Char) :
    scanString ('\\' :: e :: rest) = scanAfter c rest := by
  have hne : e ≠ 'u' := by
    rintro rfl
    have hnone : escaped? 'u' = none := by decide
    rw [hnone] at h
    exact absurd h (by simp)
  rw [scanString, h, scanAfter]
  · cases scanString rest <;> rfl
  · exact fun _ _ _ _ _ heq => absurd heq hne

lemma scanString_control {c : Char} (h : c.toNat < 0x20) (rest : List Char) :
    scanString ('\\' :: 'u' :: '0' :: '0' :: hexDigit (c.toNat / 16) :: hexDigit (c.toNat % 16) ::
      rest) = scanAfter c rest := by
  have hcode : Unit16.ofCode c.toNat = .char c := by
    rw [Unit16.ofCode, if_neg (by omega), Char.ofNat_toNat]
  rw [scanString, hexQuad?_control h, scanAfter, ← hcode]
  cases scanString rest <;> rfl

lemma scanString_plain {c : Char} (hquote : c ≠ '"') (hslash : c ≠ '\\') (h : ¬ c.toNat < 0x20)
    (rest : List Char) : scanString (c :: rest) = scanAfter c rest := by
  rw [scanString, if_neg (not_or.2 ⟨h, hslash⟩), scanAfter]
  · cases scanString rest <;> rfl
  · exact hquote
  · exact fun _ _ _ _ _ heq => absurd heq hslash
  · exact fun _ _ heq => absurd heq hslash

/-- A character is written as a letter that stands for it, by its number, or as itself. -/
lemma escape_cases (c : Char) :
    (∃ e, escaped? e = some c ∧ escape c = ['\\', e]) ∨
      (c.toNat < 0x20 ∧ escape c =
        ['\\', 'u', '0', '0', hexDigit (c.toNat / 16), hexDigit (c.toNat % 16)]) ∨
      (c ≠ '"' ∧ c ≠ '\\' ∧ ¬ c.toNat < 0x20 ∧ escape c = [c]) := by
  unfold escape
  split_ifs with hquote hslash h8 h12 h10 h13 h9 hcontrol
  · exact .inl ⟨'"', by rw [hquote]; rfl, rfl⟩
  · exact .inl ⟨'\\', by rw [hslash]; rfl, rfl⟩
  · exact .inl ⟨'b', by rw [h8]; rfl, rfl⟩
  · exact .inl ⟨'f', by rw [h12]; rfl, rfl⟩
  · exact .inl ⟨'n', by rw [h10]; rfl, rfl⟩
  · exact .inl ⟨'r', by rw [h13]; rfl, rfl⟩
  · exact .inl ⟨'t', by rw [h9]; rfl, rfl⟩
  · exact .inr (.inl ⟨hcontrol, rfl⟩)
  · exact .inr (.inr ⟨hquote, hslash, hcontrol, rfl⟩)

/-- A written character is read as that character. -/
theorem scanString_escape (c : Char) (rest : List Char) :
    scanString (escape c ++ rest) = scanAfter c rest := by
  rcases escape_cases c with ⟨e, he, hescape⟩ | ⟨hcontrol, hescape⟩ | ⟨hquote, hslash, h, hescape⟩
  · rw [hescape]
    exact scanString_letter he rest
  · rw [hescape]
    exact scanString_control hcontrol rest
  · rw [hescape]
    exact scanString_plain hquote hslash h rest

lemma scanString_flatMap_escape (cs rest : List Char) :
    scanString (cs.flatMap escape ++ '"' :: rest) = some (cs.map .char, rest) := by
  induction cs with
  | nil => rw [List.flatMap_nil, List.nil_append, scanString, List.map_nil]
  | cons c cs ih =>
    rw [List.flatMap_cons, List.append_assoc, scanString_escape, scanAfter, ih, Option.map_some,
      List.map_cons]

lemma joinSurrogates_map_char (cs : List Char) :
    joinSurrogates (cs.map .char) = some cs := by
  induction cs with
  | nil => rfl
  | cons c cs ih => rw [List.map_cons, joinSurrogates, ih, Option.map_some]

/-- A written literal is read as that literal, also if it has no meaning. -/
lemma scanOne_quote (literal : Literal) (rest : List Char) :
    scanOne (quote literal ++ rest) = some (.string literal, rest) := by
  cases literal with
  | none => rfl
  | some s =>
    rw [quote, List.cons_append, List.append_assoc, scanOne]
    simp only [List.cons_append, List.nil_append]
    rw [scanString_flatMap_escape, Option.map_some, literalOf, joinSurrogates_map_char,
      Option.map_some, String.ofList_toList]

/-! ## Integers -/

/-- Whether a character after an integer could be taken as part of it. -/
def continuesNumeral (c : Char) : Bool := c.isDigit || c = '.' || c = 'e' || c = 'E'

/-- A text that cannot go on with an integer before it. -/
def Stops (rest : List Char) : Prop := ∀ c ∈ rest.head?, continuesNumeral c = false

lemma stops_nil : Stops [] := by simp [Stops]

lemma stops_cons {c : Char} (h : continuesNumeral c = false) (rest : List Char) :
    Stops (c :: rest) := by
  simpa [Stops] using h

lemma spanDigits_append {ds rest : List Char} (hdigits : ∀ c ∈ ds, c.isDigit = true)
    (hstops : Stops rest) : spanDigits (ds ++ rest) = (ds, rest) := by
  have htake : rest.takeWhile Char.isDigit = [] ∧ rest.dropWhile Char.isDigit = rest := by
    cases rest with
    | nil => simp
    | cons c rest =>
      have hc : c.isDigit = false := by
        have := hstops c rfl
        simp only [continuesNumeral, Bool.or_eq_false_iff] at this
        exact this.1.1.1
      simp [hc]
  rw [spanDigits, List.takeWhile_append_of_pos hdigits, List.dropWhile_append_of_pos hdigits,
    htake.1, htake.2, List.append_nil]

/-- Only zero is written with a leading zero. -/
lemma digits_eq_zero_cons {n : Nat} {ds : List Char} (h : Text.Decimal.digits n = '0' :: ds) :
    ds = [] := by
  induction n using Text.Decimal.digits.induct generalizing ds with
  | case1 n hn =>
    rw [Text.Decimal.digits, if_pos hn] at h
    exact (List.cons.inj h).2.symm
  | case2 n hn ih =>
    -- The first digit is that of a number above zero, so it cannot be the only one there.
    rw [Text.Decimal.digits, if_neg hn] at h
    cases hfront : Text.Decimal.digits (n / 10) with
    | nil => exact absurd hfront (Text.Decimal.digits_ne_nil _)
    | cons d front =>
      rw [hfront, List.cons_append, List.cons.injEq] at h
      rw [h.1] at hfront
      have hvalue := Text.Decimal.value_digits (n / 10)
      rw [hfront, ih hfront] at hvalue
      have hzero : n / 10 = 0 := hvalue.symm
      omega

lemma scanWhole_digits (n : Nat) {rest : List Char} (hstops : Stops rest) :
    scanWhole (Text.Decimal.digits n ++ rest) = some (Text.Decimal.digits n, rest) := by
  have hspan := spanDigits_append (fun c => Text.Decimal.isDigit_of_mem_digits (n := n)) hstops
  cases hdigits : Text.Decimal.digits n with
  | nil => exact absurd hdigits (Text.Decimal.digits_ne_nil n)
  | cons d ds =>
    by_cases hzero : d = '0'
    · subst hzero
      rw [digits_eq_zero_cons hdigits]
      rfl
    · rw [List.cons_append, scanWhole, ← List.cons_append, ← hdigits, hspan, hdigits]
      exact fun rest' heq => hzero (List.cons.inj heq).1

lemma scanFraction_of_stops {rest : List Char} (h : Stops rest) :
    scanFraction rest = some ([], rest) := by
  cases rest with
  | nil => rfl
  | cons c rest =>
    rw [scanFraction]
    rintro rest' heq
    have := h c rfl
    rw [(List.cons.inj heq).1] at this
    exact absurd this (by decide)

lemma scanExponent_of_stops {rest : List Char} (h : Stops rest) :
    scanExponent rest = some ([], rest) := by
  cases rest with
  | nil => rfl
  | cons c rest =>
    have hc := h c rfl
    simp only [continuesNumeral, Bool.or_eq_false_iff, decide_eq_false_iff_not] at hc
    exact if_neg (not_or.2 ⟨hc.1.2, hc.2⟩)

/-- The digits of a number, without or with a sign before them, are read as that number. -/
lemma scanNumeral_digits (n : Nat) {rest : List Char} (h : Stops rest) :
    scanNumeral (Text.Decimal.digits n ++ rest) = some (.integer n, rest) := by
  have hwhole := scanWhole_digits n h
  cases hdigits : Text.Decimal.digits n with
  | nil => exact absurd hdigits (Text.Decimal.digits_ne_nil n)
  | cons d ds =>
    have hd : d ≠ '-' := by
      rintro rfl
      have := Text.Decimal.isDigit_of_mem_digits (n := n) (c := '-') (by simp [hdigits])
      exact absurd this (by decide)
    have hvalue := Text.Decimal.value_digits n
    rw [hdigits] at hwhole hvalue
    unfold scanNumeral
    rw [List.cons_append] at hwhole ⊢
    split
    next negative rest' hsign =>
      split at hsign
      · next heq => exact absurd (List.cons.inj heq).1 hd
      · cases hsign
        simp [hwhole, hvalue, scanFraction_of_stops h, scanExponent_of_stops h]

lemma scanNumeral_minus_digits {n : Nat} (hn : n ≠ 0) {rest : List Char} (h : Stops rest) :
    scanNumeral ('-' :: Text.Decimal.digits n ++ rest) = some (.integer (-n), rest) := by
  unfold scanNumeral
  rw [List.cons_append]
  simp [scanWhole_digits n h, scanFraction_of_stops h, scanExponent_of_stops h,
    Text.Decimal.value_digits, hn]

/-- A written integer is read as that integer. -/
theorem scanNumeral_integerText (i : Int) {rest : List Char} (h : Stops rest) :
    scanNumeral (integerText i ++ rest) = some (.integer i, rest) := by
  unfold integerText
  split_ifs with hneg
  · rw [scanNumeral_minus_digits (by omega) h]
    rw [show -(i.natAbs : Int) = i by omega]
  · rw [scanNumeral_digits _ h]
    rw [show (i.natAbs : Int) = i by omega]

lemma exists_integerText (i : Int) : ∃ c cs, integerText i = c :: cs ∧
    (c = '-' ∨ c.isDigit = true) := by
  unfold integerText
  split_ifs with hneg
  · exact ⟨'-', _, rfl, .inl rfl⟩
  · cases hdigits : Text.Decimal.digits i.natAbs with
    | nil => exact absurd hdigits (Text.Decimal.digits_ne_nil _)
    | cons d ds =>
      refine ⟨d, ds, rfl, .inr (Text.Decimal.isDigit_of_mem_digits (n := i.natAbs) ?_)⟩
      rw [hdigits]
      exact List.mem_cons_self

/-- Only a numeral begins with a digit or a sign. -/
lemma scanOne_eq_scanNumeral {c : Char} (h : c = '-' ∨ c.isDigit = true) (cs : List Char) :
    scanOne (c :: cs) = scanNumeral (c :: cs) := by
  unfold scanOne
  split <;> first
    | rfl
    | next heq =>
      have hc := (List.cons.inj heq).1
      rw [hc] at h
      exact absurd h (by decide)

lemma scanOne_integerText (i : Int) {rest : List Char} (h : Stops rest) :
    scanOne (integerText i ++ rest) = some (.integer i, rest) := by
  obtain ⟨c, cs, htext, hfirst⟩ := exists_integerText i
  rw [← scanNumeral_integerText i h, htext, List.cons_append]
  exact scanOne_eq_scanNumeral hfirst (cs ++ rest)

/-! ## Tokens -/

/-- What is written for a token is read as that token. -/
theorem scanOne_text {token : Token} (hdecimal : ∀ numeral, token ≠ .decimal numeral)
    {rest : List Char} (h : ∀ i, token = .integer i → Stops rest) :
    scanOne (token.text ++ rest) = some (token, rest) := by
  cases token with
  | bool value => cases value <;> rfl
  | integer i => exact scanOne_integerText i (h i rfl)
  | decimal numeral => exact absurd rfl (hdecimal numeral)
  | string literal => exact scanOne_quote literal rest
  | _ => rfl

lemma isBlank_of_numeral {c : Char} (h : c = '-' ∨ c.isDigit = true) : isBlank c = false := by
  cases hblank : isBlank c with
  | false => rfl
  | true =>
    simp only [isBlank, Bool.or_eq_true, decide_eq_true_eq] at hblank
    rcases hblank with ((rfl | rfl) | rfl) | rfl <;> exact absurd h (by decide)

/-- A token begins with a character of its own. -/
lemma exists_text {token : Token} (hdecimal : ∀ numeral, token ≠ .decimal numeral) :
    ∃ c cs, token.text = c :: cs ∧ isBlank c = false := by
  cases token with
  | bool value => cases value <;> exact ⟨_, _, rfl, by decide⟩
  | integer i =>
    obtain ⟨c, cs, htext, hfirst⟩ := exists_integerText i
    exact ⟨c, cs, htext, isBlank_of_numeral hfirst⟩
  | decimal numeral => exact absurd rfl (hdecimal numeral)
  | string literal => cases literal <;> exact ⟨_, _, rfl, by decide⟩
  | _ => exact ⟨_, _, rfl, by decide⟩

/-! ## Texts -/

/-- A text consists of the texts of tokens, with blanks before, between and behind them. -/
inductive Spells : List Token → List Char → Prop where
  | nil : Spells [] []
  | blank {tokens : List Token} {c : Char} {cs : List Char} (hblank : isBlank c = true)
      (rest : Spells tokens cs) : Spells tokens (c :: cs)
  | token {token : Token} {tokens : List Token} {cs : List Char}
      (hdecimal : ∀ numeral, token ≠ .decimal numeral)
      (hstops : ∀ i, token = .integer i → Stops cs) (rest : Spells tokens cs) :
      Spells (token :: tokens) (token.text ++ cs)

lemma Spells.length_le {tokens : List Token} {cs : List Char} (h : Spells tokens cs) :
    tokens.length ≤ cs.length := by
  induction h with
  | nil => exact Nat.le_refl _
  | blank hblank rest ih => exact Nat.le_succ_of_le ih
  | token hdecimal hstops rest ih =>
    obtain ⟨c, cs, htext, -⟩ := exists_text hdecimal
    rw [htext, List.length_append, List.length_cons, List.length_cons]
    omega

lemma scanMany_blank {c : Char} (h : isBlank c = true) (fuel : Nat) (cs : List Char) :
    scanMany fuel (c :: cs) = scanMany fuel cs := by
  have hdrop : (c :: cs).dropWhile isBlank = cs.dropWhile isBlank := by simp [h]
  cases fuel with
  | zero => rw [scanMany, scanMany, hdrop]
  | succ fuel => rw [scanMany, scanMany, hdrop]

lemma Spells.scanMany_eq {tokens : List Token} {cs : List Char} (h : Spells tokens cs)
    {fuel : Nat} (hfuel : tokens.length ≤ fuel) : scanMany fuel cs = some tokens := by
  induction h generalizing fuel with
  | nil => cases fuel <;> rfl
  | blank hblank rest ih => rw [scanMany_blank hblank, ih hfuel]
  | @token token tokens cs hdecimal hstops rest ih =>
    obtain ⟨fuel, rfl⟩ : ∃ k, fuel = k + 1 := ⟨fuel - 1, by simp at hfuel; omega⟩
    obtain ⟨c, text, htext, hblank⟩ := exists_text hdecimal
    have hone := scanOne_text hdecimal hstops
    have hmany : scanMany fuel cs = some tokens := ih (by simpa using hfuel)
    rw [htext, List.cons_append] at hone ⊢
    rw [scanMany, List.dropWhile_cons_of_neg (by simp [hblank])]
    simp [hone, hmany]

/-- A text is scanned into the tokens it spells. -/
theorem Spells.scan_eq {tokens : List Token} {cs : List Char} (h : Spells tokens cs) :
    scan cs = some tokens := h.scanMany_eq h.length_le

end Bindery.Json.Token
