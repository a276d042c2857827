import ByteLayout.Scalar.Integer

/-!
# Floating-point fields

A value for a float field is read as a double first, an integer being rounded to the nearest one,
and a single is the double rounded once more, so that an integer reaches single precision through
double precision. A double that leaves the range of singles is refused.

Bytes that hold an infinity or a NaN decode to `null`.
-/

namespace ByteLayout

namespace FloatKind

/-- The double that a number is nearest to. -/
def toDouble : Number → Except Reason Double
  | .int n => (Finite.ofInt? .binary64 n).elim (.error .notFinite) .ok
  | .float x => .ok x

/-- The double that a value stands for, if the kind has a finite value for it. -/
def check (kind : FloatKind) : Value → Except Reason Double
  | .number n =>
    match toDouble n with
    | .error reason => .error reason
    | .ok x =>
      if x.nearestIn kind.format < kind.format.infinity then .ok x else .error (.tooLarge x)
  | other => .error (.notNumber other.shape)

/-- The bytes of a bit pattern. -/
def encodeBits (kind : FloatKind) (order : ByteOrder) (bits : Nat) : List UInt8 :=
  order.bytes kind.width bits

/-- The bytes of a double, rounded to the kind. -/
def encode (kind : FloatKind) (order : ByteOrder) (x : Double) : List UInt8 :=
  kind.encodeBits order (x.bitsIn kind.format)

@[simp] theorem length_encode (kind : FloatKind) (order : ByteOrder) (x : Double) :
    (kind.encode order x).length = kind.width := by
  simp [encode, encodeBits]

/-- The bit pattern that bytes hold. -/
def decodeBits (order : ByteOrder) (bytes : List UInt8) : Nat := order.number bytes

/-- The value of a bit pattern of the kind, `null` for infinities and NaNs. -/
def ofBits (kind : FloatKind) (bits : Nat) : Value :=
  match (Finite.ofBits? kind.format bits).bind (Finite.convert? .binary64) with
  | some x => .float x
  | none => .null

/-- The value that bytes stand for. -/
def decode (kind : FloatKind) (order : ByteOrder) (bytes : List UInt8) : Value :=
  kind.ofBits (decodeBits order bytes)

end FloatKind

end ByteLayout
