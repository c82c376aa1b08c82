import Bindery.Text.Decimal

/-!
# The range of numbers

A document may be taken in as a whole before it is known what it is for.  Its numbers are then
worked out in double precision, and a document with a number that is too large is refused.

A number is worked out in three steps: the digits are read from the left as long as they make a
number of 64 bits, the rest of them counting only as places; that number and a power of ten are each
rounded to the nearest double; and the two are multiplied, which rounds once more.  So right at the
end of the range it depends on how a number is written whether it is refused: the greatest double
is taken when it is written with 17 digits, and refused when all its digits are written.

`nearestDouble` is that rounding on natural numbers; it leaves those below `2 ^ 53` alone.
-/

namespace Bindery.Json

/-! ## Rounding -/

/-- How many binary digits a double keeps. -/
def doubleBits : Nat := 53

/-- The least number that is too large for a double: half a step above the greatest one, from where
on numbers are rounded up to what would be the next. -/
def doubleBound : Nat := 1 <<< 1024 - 1 <<< 970

/-- The double nearest to a number, or the even one of two that are equally near, as if there were
no greatest. -/
def nearestDouble (n : Nat) : Nat :=
  let step := 1 <<< (n.log2 + 1 - doubleBits)
  let below := n / step
  let excess := n % step
  if 2 * excess < step || (2 * excess = step && below % 2 = 0) then below * step
  else (below + 1) * step

/-! ## Magnitudes -/

/-- A number without its sign as it is written: its digits, and the power of ten by which the
number they make is to be multiplied. -/
structure Magnitude where
  digits : List Char
  power : Int
  deriving DecidableEq, Repr

/-- The digits from the left that make a number of 64 bits together with `value`, the number made
by those before them.  Gives that number and the digits that are left. -/
def significand (value : Nat) : List Char → Nat × List Char
  | [] => (value, [])
  | d :: ds =>
    let next := 10 * value + Text.Decimal.digitValue d
    if next < 1 <<< 64 then significand next ds else (value, d :: ds)

namespace Magnitude

/-- The magnitude of an integer. -/
def ofNat (n : Nat) : Magnitude := ⟨Text.Decimal.digits n, 0⟩

/-- The number that an exponent stands for, given what follows its mark. -/
def exponentOf : List Char → Int
  | '-' :: digits => -(Text.Decimal.value digits : Int)
  | '+' :: digits => Text.Decimal.value digits
  | digits => Text.Decimal.value digits

/-- The magnitude of a numeral. -/
def ofNumeral (numeral : String) : Magnitude :=
  let unsigned := numeral.toList.dropWhile (· = '-')
  let mantissa := unsigned.takeWhile fun c => c ≠ 'e' && c ≠ 'E'
  let exponent := (unsigned.dropWhile fun c => c ≠ 'e' && c ≠ 'E').drop 1
  let fraction := (mantissa.dropWhile (· ≠ '.')).drop 1
  ⟨mantissa.filter (· ≠ '.'), exponentOf exponent - fraction.length⟩

/-- The greatest power of ten that is a double. -/
def greatestPower : Nat := 308

/-- Whether the number that is worked out is a double.  Zero and what is not multiplied by a power
of ten above one always are. -/
def isInRange (m : Magnitude) : Bool :=
  let (value, dropped) := significand 0 m.digits
  let power := m.power + dropped.length
  value = 0 || power < 0 ||
    (power ≤ greatestPower &&
      nearestDouble value * nearestDouble (Nat.pow 10 power.toNat) < doubleBound)

end Magnitude

/-- Whether an integer can be taken in.  From `10 ^ 309` on none can, and there the digits need not
be looked at. -/
def isIntegerInRange (n : Nat) : Bool := n < Nat.pow 10 309 && (Magnitude.ofNat n).isInRange

/-- Whether a numeral that is not an integer can be taken in. -/
def isNumeralInRange (numeral : String) : Bool := (Magnitude.ofNumeral numeral).isInRange

end Bindery.Json
