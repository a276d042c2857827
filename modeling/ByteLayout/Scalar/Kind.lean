import ByteLayout.Float.Format

/-!
# Kinds of scalars

Eight integer kinds and two float kinds. A kind fixes a width in bytes and a set of values; the byte
order is no part of it, it comes from the scope in which a field lies.
-/

namespace ByteLayout

/-- The byte order of a scope. -/
inductive ByteOrder where
  | big
  | little
  deriving DecidableEq, Repr

/-- The kind of an integer field. -/
inductive IntKind where
  | i8
  | u8
  | i16
  | u16
  | i32
  | u32
  | i64
  | u64
  deriving DecidableEq, Repr

/-- The kind of a floating-point field. -/
inductive FloatKind where
  | f32
  | f64
  deriving DecidableEq, Repr

namespace IntKind

/-- The number of bytes. -/
def width : IntKind → Nat
  | i8 | u8 => 1
  | i16 | u16 => 2
  | i32 | u32 => 4
  | i64 | u64 => 8

def isUnsigned : IntKind → Bool
  | u8 | u16 | u32 | u64 => true
  | i8 | i16 | i32 | i64 => false

def label : IntKind → String
  | i8 => "I8"
  | u8 => "U8"
  | i16 => "I16"
  | u16 => "U16"
  | i32 => "I32"
  | u32 => "U32"
  | i64 => "I64"
  | u64 => "U64"

/-- The number of values, two to the number of bits. -/
def size (kind : IntKind) : Nat := Nat.pow 256 kind.width

/-- The least value. -/
def min (kind : IntKind) : Int := if kind.isUnsigned then 0 else -(kind.size / 2 : Nat)

/-- The greatest value. -/
def max (kind : IntKind) : Int := kind.min + kind.size - 1

end IntKind

namespace FloatKind

def format : FloatKind → FloatFormat
  | f32 => .binary32
  | f64 => .binary64

/-- The number of bytes. -/
def width : FloatKind → Nat
  | f32 => 4
  | f64 => 8

def label : FloatKind → String
  | f32 => "F32"
  | f64 => "F64"

end FloatKind

end ByteLayout
