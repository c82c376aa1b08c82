import Bindery.Text.UpperCase.Table

/-!
# Upper case

The upper-case form of a character, which may be several characters, and of the first character of
a text.  Only the first character is changed: `"straße"` becomes `"Straße"`, `"ßa"` becomes
`"SSa"`.
-/

namespace Bindery.Text

/-- The upper-case form of a character; the character itself when it has none. -/
def upperChar (c : Char) : List Char :=
  match UpperCase.longForms.lookup c.toNat with
  | some codes => codes.map Char.ofNat
  | none =>
    match UpperCase.caseRuns.findSome? (·.map? c.toNat) with
    | some code => [Char.ofNat code]
    | none => [c]

/-- The upper-case form of the first character, followed by the rest. -/
def upperFirst (text : String) : String :=
  match text.toList with
  | [] => text
  | c :: cs => String.ofList (upperChar c ++ cs)

/-! ## Small facts -/

@[simp]
theorem upperFirst_empty : upperFirst "" = "" := by
  simp [upperFirst]

theorem toList_upperFirst_cons {text : String} {c : Char} {cs : List Char}
    (h : text.toList = c :: cs) : (upperFirst text).toList = upperChar c ++ cs := by
  simp [upperFirst, h]

end Bindery.Text
