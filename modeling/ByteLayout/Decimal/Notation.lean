import ByteLayout.Decimal.Shortest
import ByteLayout.Value

/-!
# How numbers are written

Integers are written in decimal. A double is written with its shortest digits, in one of two ways.

- `Number.text` always shows that the number is a double: positional with at least one digit after
  the point for absolute values from `1e-5` to below `1e16` (`0.5`, `1.0`, `-0.0`), with an
  exponent and its sign outside (`1e-7`, `1e+16`).
- `Double.positional` never uses an exponent, and no point for a whole number.
-/

namespace ByteLayout

namespace Decimal

/-- `count` zeros. -/
def zeros (count : Nat) : String := String.ofList (List.replicate count '0')

/-- The digits in positional notation; a whole number has no point. -/
def Scientific.positional (decimal : Scientific) : String :=
  let text := toString decimal.digits
  match decimal.exponent with
  | .ofNat trailing => text ++ zeros trailing
  | .negSucc below =>
    let places := below + 1
    let digits := text.toList
    if places < digits.length then
      let whole := digits.length - places
      String.ofList (digits.take whole) ++ "." ++ String.ofList (digits.drop whole)
    else "0." ++ zeros (places - digits.length) ++ text

/-- The power of ten of the first digit. -/
def Scientific.leading (decimal : Scientific) : Int :=
  decimal.exponent + (digitCount decimal.digits - 1 : Nat)

/-- One digit before the point and the others after it, then the exponent with its sign. -/
def Scientific.exponential (decimal : Scientific) : String :=
  let mantissa :=
    match (toString decimal.digits).toList with
    | [] => ""
    | [digit] => String.singleton digit
    | digit :: rest => String.singleton digit ++ "." ++ String.ofList rest
  let sign := if decimal.leading < 0 then "e-" else "e+"
  mantissa ++ sign ++ toString decimal.leading.natAbs

/-- Whether the digits are written positionally, which holds from `1e-5` to below `1e16`. -/
def Scientific.isModerate (decimal : Scientific) : Bool :=
  decide (-5 ≤ decimal.leading) && decide (decimal.leading < 16)

end Decimal

namespace Finite

variable {format : FloatFormat}

/-- The sign of a number, written only if it is a minus. -/
def signText (x : Finite format) : String := if x.negative then "-" else ""

/-- The shortest digits, with a fraction or an exponent. -/
def text (x : Finite format) : String :=
  if x.isZero then x.signText ++ "0.0"
  else
    let decimal := Decimal.shortest format x.magnitude
    let digits :=
      if decimal.isModerate then
        if decimal.exponent < 0 then decimal.positional else decimal.positional ++ ".0"
      else decimal.exponential
    x.signText ++ digits

/-- The shortest digits, without exponent. -/
def positional (x : Finite format) : String :=
  if x.isZero then x.signText ++ "0"
  else x.signText ++ (Decimal.shortest format x.magnitude).positional

end Finite

/-- The text of a number. -/
def Number.text : Number → String
  | .int n => toString n
  | .float x => x.text

end ByteLayout
