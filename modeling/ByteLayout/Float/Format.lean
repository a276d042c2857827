/-!
# Binary floating-point formats

A format is given by the widths of its exponent and fraction fields, as in IEEE 754. A bit pattern
without its sign is a **magnitude**: exponent field above fraction field, one natural number, so
that larger patterns stand for larger values and the pattern of infinity is the first one that is
not finite.

Every finite value is a whole number of **units**, the smallest positive value of the format
(`2 ^ -1074` for double precision). `units` reads a magnitude as that number, and `nearest` goes
back: it rounds a quotient of units to the nearest magnitude, a tie to the even one. A carry out of
the fraction field is a carry into the exponent field, so rounding needs no second case for it.

All conversions of the library (narrowing, widening, from integers) are `nearest` applied to a value
in units of the target format.
-/

namespace ByteLayout

/-- The widths of the exponent and fraction fields of a binary floating-point format. -/
structure FloatFormat where
  exponentBits : Nat
  fractionBits : Nat
  deriving DecidableEq, Repr

namespace FloatFormat

/-- Single precision. -/
def binary32 : FloatFormat := ⟨8, 23⟩

/-- Double precision. -/
def binary64 : FloatFormat := ⟨11, 52⟩

/-- The place of the sign bit, above exponent and fraction. -/
def signBit (format : FloatFormat) : Nat :=
  Nat.pow 2 (format.exponentBits + format.fractionBits)

/-- The magnitude of infinity: all exponent bits, no fraction bit. -/
def infinity (format : FloatFormat) : Nat :=
  (Nat.pow 2 format.exponentBits - 1) * Nat.pow 2 format.fractionBits

/-- One is `2 ^ unitExponent` units. -/
def unitExponent (format : FloatFormat) : Nat :=
  Nat.pow 2 (format.exponentBits - 1) - 2 + format.fractionBits

/-- The exponent of the spacing at a magnitude: neighbours are `2 ^ shift` units apart. -/
def shift (format : FloatFormat) (magnitude : Nat) : Nat :=
  magnitude / Nat.pow 2 format.fractionBits - 1

/-- The integer that `2 ^ shift` multiplies: the fraction, with the hidden bit of a normal value. -/
def significand (format : FloatFormat) (magnitude : Nat) : Nat :=
  magnitude - format.shift magnitude * Nat.pow 2 format.fractionBits

/-- The value of a magnitude, in units. -/
def units (format : FloatFormat) (magnitude : Nat) : Nat :=
  format.significand magnitude * Nat.pow 2 (format.shift magnitude)

/-- The quotient rounded to the nearest integer, a tie to the even one. -/
def roundHalfEven (num den : Nat) : Nat :=
  let quotient := num / den
  let twice := 2 * (num % den)
  if twice < den ∨ (twice = den ∧ quotient % 2 = 0) then quotient else quotient + 1

/-- The magnitude nearest to `num / den` units, a tie going to the even one; infinity if the value
is too large. -/
def nearest (format : FloatFormat) (num den : Nat) : Nat :=
  let shift := (num / den).log2 - format.fractionBits
  min format.infinity
    (shift * Nat.pow 2 format.fractionBits + roundHalfEven num (den * Nat.pow 2 shift))

end FloatFormat

/-! ## Finite values -/

/-- A finite floating-point value, both zeros included. -/
structure Finite (format : FloatFormat) where
  negative : Bool
  magnitude : Nat
  isFinite : magnitude < format.infinity
  deriving DecidableEq

/-- A finite double-precision value. -/
abbrev Double := Finite .binary64

namespace Finite

variable {format : FloatFormat}

/-- The value of a bit pattern; infinities and NaNs have none. -/
def ofBits? (format : FloatFormat) (bits : Nat) : Option (Finite format) :=
  let magnitude := bits % format.signBit
  if h : magnitude < format.infinity then
    some ⟨bits / format.signBit % 2 == 1, magnitude, h⟩
  else none

/-- The bit pattern of a magnitude with its sign. -/
def pattern (format : FloatFormat) (negative : Bool) (magnitude : Nat) : Nat :=
  (if negative then format.signBit else 0) + magnitude

/-- The bit pattern of a value. -/
def toBits (x : Finite format) : Nat := pattern format x.negative x.magnitude

/-- The distance from zero, in units. -/
def units (x : Finite format) : Nat := format.units x.magnitude

/-- Whether the value is a zero of either sign. -/
def isZero (x : Finite format) : Bool := x.magnitude == 0

/-- Equality of the values, under which the two zeros are equal. -/
def sameValue (x y : Finite format) : Bool := (x.isZero && y.isZero) || x == y

/-- The magnitude in another format that is nearest to the value. -/
def nearestIn (target : FloatFormat) (x : Finite format) : Nat :=
  target.nearest (x.units * Nat.pow 2 (target.unitExponent - format.unitExponent))
    (Nat.pow 2 (format.unitExponent - target.unitExponent))

/-- The bit pattern of the value rounded to another format, an infinity if it is too large. -/
def bitsIn (target : FloatFormat) (x : Finite format) : Nat :=
  pattern target x.negative (x.nearestIn target)

/-- The value rounded to another format, if it stays finite. -/
def convert? (target : FloatFormat) (x : Finite format) : Option (Finite target) :=
  if h : x.nearestIn target < target.infinity then some ⟨x.negative, x.nearestIn target, h⟩
  else none

/-- The value nearest to an integer, if it is finite. -/
def ofInt? (format : FloatFormat) (n : Int) : Option (Finite format) :=
  let magnitude := format.nearest (n.natAbs * Nat.pow 2 format.unitExponent) 1
  if h : magnitude < format.infinity then some ⟨decide (n < 0), magnitude, h⟩ else none

/-- The integer that the value is, if it is one. -/
def toInt? (x : Finite format) : Option Int :=
  let one := Nat.pow 2 format.unitExponent
  if x.units % one = 0 then
    let n : Int := (x.units / one : Nat)
    some (if x.negative then -n else n)
  else none

end Finite

end ByteLayout
