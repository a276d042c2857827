import ByteLayout.Error

/-!
# Integer fields

An integer of a kind with `w` bytes is stored as its remainder modulo `256 ^ w`, that is in two's
complement, as `w` digits of base 256; the digits and the number determine each other
(`ByteOrder.number_bytes`, `ByteOrder.bytes_number`). `IntKind.check` accepts a value for a kind
exactly if it is a number whose value is an integer in the range of the kind; a double of integral
value is as good as the integer.
-/

namespace ByteLayout

/-! ## Digits of base 256 -/

/-- The low `width` digits of a number, least significant first. -/
def digits256 : Nat → Nat → List UInt8
  | 0, _ => []
  | width + 1, n => UInt8.ofNat n :: digits256 width (n / 256)

/-- The number with the given digits, least significant first. -/
def ofDigits256 : List UInt8 → Nat
  | [] => 0
  | digit :: rest => digit.toNat + 256 * ofDigits256 rest

@[simp] theorem length_digits256 (width n : Nat) : (digits256 width n).length = width := by
  induction width generalizing n with
  | zero => rfl
  | succ width ih => simp [digits256, ih]

theorem ofDigits256_lt (digits : List UInt8) : ofDigits256 digits < Nat.pow 256 digits.length := by
  induction digits with
  | nil => simp [ofDigits256]
  | cons digit rest ih =>
    have hdigit := digit.toNat_lt
    have hpow : Nat.pow 256 (rest.length + 1) = Nat.pow 256 rest.length * 256 := rfl
    rw [ofDigits256, List.length_cons, hpow]
    omega

theorem ofDigits256_digits256 (width n : Nat) (h : n < Nat.pow 256 width) :
    ofDigits256 (digits256 width n) = n := by
  induction width generalizing n with
  | zero =>
    rw [Nat.pow] at h
    simp only [digits256, ofDigits256]
    omega
  | succ width ih =>
    have hpow : Nat.pow 256 (width + 1) = Nat.pow 256 width * 256 := rfl
    rw [digits256, ofDigits256, ih (n / 256) (by omega), UInt8.toNat_ofNat']
    omega

theorem digits256_ofDigits256 (digits : List UInt8) :
    digits256 digits.length (ofDigits256 digits) = digits := by
  induction digits with
  | nil => rfl
  | cons digit rest ih =>
    have hlt := digit.toNat_lt
    have hdiv : (digit.toNat + 256 * ofDigits256 rest) / 256 = ofDigits256 rest := by omega
    have hmod : UInt8.ofNat (digit.toNat + 256 * ofDigits256 rest) = digit := by
      apply UInt8.toNat_inj.mp
      simp only [UInt8.toNat_ofNat']
      omega
    simp [digits256, ofDigits256, hdiv, hmod, ih]

namespace ByteOrder

/-- Digits given least significant first, in the order in which they are stored; and back. -/
def arrange (order : ByteOrder) (digits : List UInt8) : List UInt8 :=
  match order with
  | big => digits.reverse
  | little => digits

/-- The low `width` bytes of a number. -/
def bytes (order : ByteOrder) (width n : Nat) : List UInt8 := order.arrange (digits256 width n)

/-- The number that bytes stand for. -/
def number (order : ByteOrder) (bytes : List UInt8) : Nat := ofDigits256 (order.arrange bytes)

@[simp] theorem arrange_arrange (order : ByteOrder) (digits : List UInt8) :
    order.arrange (order.arrange digits) = digits := by
  cases order <;> simp [arrange]

@[simp] theorem length_arrange (order : ByteOrder) (digits : List UInt8) :
    (order.arrange digits).length = digits.length := by
  cases order <;> simp [arrange]

@[simp] theorem length_bytes (order : ByteOrder) (width n : Nat) :
    (order.bytes width n).length = width := by
  simp [bytes]

theorem number_bytes (order : ByteOrder) (width n : Nat) (h : n < Nat.pow 256 width) :
    order.number (order.bytes width n) = n := by
  simp [number, bytes, ofDigits256_digits256 width n h]

theorem bytes_number (order : ByteOrder) (bytes : List UInt8) :
    order.bytes bytes.length (order.number bytes) = bytes := by
  have h := digits256_ofDigits256 (order.arrange bytes)
  rw [length_arrange] at h
  simp [number, ByteOrder.bytes, h]

theorem number_lt (order : ByteOrder) (bytes : List UInt8) :
    order.number bytes < Nat.pow 256 bytes.length := by
  have h := ofDigits256_lt (order.arrange bytes)
  rwa [length_arrange] at h

end ByteOrder

/-- The bounds of a signed integer of 128 bits, to which integral doubles are confined. -/
def confine (n : Int) : Int :=
  let bound : Nat := Nat.pow 2 127
  max (-bound) (min n (bound - 1))

/-- The integer that a value stands for. -/
def Value.toInteger : Value → Except Reason Int
  | .number (.int n) => .ok n
  | .number (.float x) => x.toInt?.elim (.error (.fractional x)) fun n => .ok (confine n)
  | other => .error (.notInteger other.shape)

namespace IntKind

/-- Whether an integer is one of the kind. -/
def Holds (kind : IntKind) (n : Int) : Prop := kind.min ≤ n ∧ n ≤ kind.max

instance (kind : IntKind) (n : Int) : Decidable (kind.Holds n) :=
  inferInstanceAs (Decidable (_ ∧ _))

/-- The integer that a value stands for, if the kind holds it. -/
def check (kind : IntKind) (value : Value) : Except Reason Int :=
  match value.toInteger with
  | .error reason => .error reason
  | .ok n => if kind.Holds n then .ok n else .error (.outOfRange n kind)

/-- The bytes of an integer; of one that the kind does not hold, those of its remainder. -/
def encode (kind : IntKind) (order : ByteOrder) (n : Int) : List UInt8 :=
  order.bytes kind.width (n % kind.size).toNat

@[simp] theorem length_encode (kind : IntKind) (order : ByteOrder) (n : Int) :
    (kind.encode order n).length = kind.width := by
  simp [encode]

/-- The integer of the kind with a given remainder. -/
def ofRemainder (kind : IntKind) (remainder : Nat) : Int :=
  if kind.max < remainder then remainder - kind.size else remainder

/-- The integer that bytes stand for. -/
def decode (kind : IntKind) (order : ByteOrder) (bytes : List UInt8) : Int :=
  kind.ofRemainder (order.number bytes)

/-- The integer of the kind that is equal to `n` modulo its size. -/
def wrap (kind : IntKind) (n : Int) : Int := kind.ofRemainder (n % kind.size).toNat

end IntKind

end ByteLayout
