import ByteLayout.Error
import ByteLayout.Text.Utf16

/-!
# Text encodings

The three encodings of a string payload. Each can always decode, replacing what is malformed, and
each knows the number of bytes of a text without encoding it, which is what the length in front of
a string records. Encoding fails for LATIN1 alone, at the first character above U+00FF.

A string field takes a string as it is, and numbers and booleans by their text. Nothing else has a
text.
-/

namespace ByteLayout

/-- The encoding of a string payload. UTF-16 is always little-endian, whatever the byte order of
the enclosing scope. -/
inductive TextEncoding where
  | latin1
  | utf16
  | utf8
  deriving DecidableEq, Repr

namespace TextEncoding

def label : TextEncoding → String
  | latin1 => "LATIN1"
  | utf16 => "UTF16"
  | utf8 => "UTF8"

/-- The number of bytes of a text. -/
def byteLength : TextEncoding → String → Nat
  | latin1, text => text.length
  | utf16, text => 2 * (Utf16.units text.toList).length
  | utf8, text => text.utf8ByteSize

/-- The first character that does not fit one byte. -/
def firstWide? (text : List Char) : Option Char := text.find? fun c => decide (0xFF < c.toNat)

/-- The bytes of a text, or the first character that the encoding cannot represent. -/
def encode : TextEncoding → String → Except Char (List UInt8)
  | latin1, text =>
    match firstWide? text.toList with
    | some c => .error c
    | none => .ok (text.toList.map fun c => UInt8.ofNat c.toNat)
  | utf16, text => .ok (Utf16.encode text.toList)
  | utf8, text => .ok (Utf8.encode text.toList)

/-- The text of a byte string, malformed parts replaced by U+FFFD. -/
def decode : TextEncoding → List UInt8 → String
  | latin1, bytes => String.ofList (bytes.map fun b => Char.ofNat b.toNat)
  | utf16, bytes => String.ofList (Utf16.decode bytes)
  | utf8, bytes => String.ofList (Utf8.decode bytes)

/-- The bytes of a text, or the reason why it has none. -/
def toBytes (encoding : TextEncoding) (text : String) : Except Reason (List UInt8) :=
  match encoding.encode text with
  | .ok bytes => .ok bytes
  | .error c => .error (.unrepresentable c)

end TextEncoding

/-- The text of a scalar. -/
def Value.toText : Value → Except Reason String
  | .string text => .ok text
  | .number n => .ok n.text
  | .bool true => .ok "true"
  | .bool false => .ok "false"
  | other => .error (.notText other.shape)

end ByteLayout
