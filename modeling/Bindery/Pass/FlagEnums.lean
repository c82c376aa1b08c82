import Bindery.Progress

/-!
# Enumerations of flags

The values of an enumeration are flags if each of them, zero apart, is a power of two of its own.
Zero may stand for the empty combination, but an enumeration of nothing else is not one of flags.
-/

namespace Bindery

namespace FlagEnum

/-- Whether a number is a power of two: one bit is set, so none is left without the lowest. -/
def isSingleBit (n : Nat) : Bool := n ≠ 0 && n &&& (n - 1) = 0

/-- Whether the values are flags, given the bits of those before them. -/
def areFlags (bits : Nat) : (values : List Int) → Bool
  | [] => bits ≠ 0
  | v :: vs =>
    if v = 0 then areFlags bits vs
    else
      0 < v && isSingleBit v.toNat && bits &&& v.toNat = 0 && areFlags (bits ||| v.toNat) vs

/-- Whether the members of an enumeration are flags. -/
def isFlagSet (variants : List (String × Int64)) : Bool :=
  areFlags 0 (variants.map fun variant => variant.2.toInt)

end FlagEnum

namespace Tree

/-- Marks an enumeration as one of flags, or takes the mark off, as its members demand. -/
def classifyEnum (t : Tree) (id : Nat) : Progress :=
  match (t.decl id).payload with
  | .enumType variants isFlags =>
    let demanded := FlagEnum.isFlagSet variants
    if demanded = isFlags then .unchanged t
    else
      .edited t id (.setFlags demanded)
        (if demanded then [⟨.info, "Treating enum \"" ++ t.qualifiedName id ++ "\" as flags"⟩]
        else [])
  | _ => .unchanged t

/-- Marks the enumerations of flags, and no others. -/
def classifyEnums (t : Tree) : Progress := Progress.sweep classifyEnum t.walk t

end Tree

end Bindery
