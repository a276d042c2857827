import ByteLayout.Float.Format

/-!
# Shortest decimals

The shortest decimal of a floating-point value is the one with the fewest digits among the decimals
that round to the value; of those the nearest to it, and of two at the same distance the even one.

Everything is exact. A unit is `2 ^ -e = 5 ^ e * 10 ^ -e`, where `e` is the unit exponent, so a
value is a natural number of **grains** of `10 ^ -e`. The interval of the decimals that round to a
value reaches half way to the neighbouring values, ends included when the value's pattern is even;
it is kept in quarter grains.

With `n` digits the candidates are the two grid points around the value. The first `n` for which one
of them lies in the interval gives the answer, since a coarser grid has no point in the interval
unless one of the value's two neighbours on it does.
-/

namespace ByteLayout.Decimal

/-- `digits * 10 ^ exponent`. -/
structure Scientific where
  digits : Nat
  exponent : Int
  deriving DecidableEq, Repr

/-- The grains that round to a value, all in quarter grains. -/
structure Rounding where
  value : Nat
  low : Nat
  high : Nat
  closed : Bool

namespace Rounding

/-- The interval of the decimals that round to a magnitude. Below a power of two the neighbour is
half as far as above it, except at the smallest spacing. -/
def ofMagnitude (format : FloatFormat) (magnitude : Nat) : Rounding :=
  let grains := Nat.pow 5 format.unitExponent
  let units := format.units magnitude
  let spacing := Nat.pow 2 (format.shift magnitude)
  let below :=
    if magnitude % Nat.pow 2 format.fractionBits = 0 ∧ 0 < format.shift magnitude then spacing
    else 2 * spacing
  { value := 4 * units * grains
    low := (4 * units - below) * grains
    high := (4 * units + 2 * spacing) * grains
    closed := magnitude % 2 == 0 }

def contains (rounding : Rounding) (quarters : Nat) : Bool :=
  if rounding.closed then
    decide (rounding.low ≤ quarters) && decide (quarters ≤ rounding.high)
  else decide (rounding.low < quarters) && decide (quarters < rounding.high)

/-- The multiple of `step` grains that stands for the value on that grid, if one lies in the
interval. -/
def onGrid (rounding : Rounding) (step : Nat) : Option Nat :=
  let lower := rounding.value / (4 * step)
  let toLower := rounding.value - 4 * lower * step
  let toUpper := 4 * (lower + 1) * step - rounding.value
  let nearer :=
    if toLower < toUpper ∨ (toLower = toUpper ∧ lower % 2 = 0) then lower else lower + 1
  match rounding.contains (4 * lower * step), rounding.contains (4 * (lower + 1) * step) with
  | true, true => some nearer
  | true, false => some lower
  | false, true => some (lower + 1)
  | false, false => none

end Rounding

/-- The number of decimal digits, one for zero. -/
def digitCount (n : Nat) : Nat := (Nat.toDigits 10 n).length

/-- Removes zeros at the end of the digits, at most `fuel` of them. -/
def stripZeros : Nat → Scientific → Scientific
  | 0, decimal => decimal
  | fuel + 1, decimal =>
    if decimal.digits % 10 = 0 then stripZeros fuel ⟨decimal.digits / 10, decimal.exponent + 1⟩
    else decimal

/-- The most digits that a double ever needs. -/
def maxDigits : Nat := 17

/-- The shortest decimal that rounds to a value of `magnitude` other than zero. -/
def shortest (format : FloatFormat) (magnitude : Nat) : Scientific :=
  let rounding := Rounding.ofMagnitude format magnitude
  let places := digitCount (rounding.value / 4)
  let attempt (n : Nat) : Option Scientific :=
    let drop := places - (n + 1)
    (rounding.onGrid (Nat.pow 10 drop)).map fun digits =>
      ⟨digits, (drop : Int) - format.unitExponent⟩
  let found := (List.range maxDigits).findSome? attempt
  stripZeros maxDigits (found.getD ⟨rounding.value / 4, -format.unitExponent⟩)

end ByteLayout.Decimal
