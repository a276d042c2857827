/-!
# UTF-8

Encoding takes one to four bytes for a character. Decoding accepts every byte string: it is a
machine that reads one byte at a time and replaces each maximal part that cannot be continued to a
well-formed sequence by U+FFFD.

Between two bytes the machine is either at a boundary or inside a sequence. Inside, it knows the
bits collected so far, how many bytes are missing, and the range of the next one. The range is
narrower than a plain continuation byte only after four lead bytes; that is what keeps out overlong
forms, surrogates and code points beyond the last (`Utf8.open?`). A byte out of the range ends the
broken sequence and is read again at the boundary.
-/

namespace ByteLayout.Utf8

/-- The character that stands for malformed input, U+FFFD. -/
def replacement : Char := Char.ofNat 0xFFFD

/-! ## Encoding -/

/-- A continuation byte with the six low bits of `n`. -/
def continuation (n : Nat) : UInt8 := UInt8.ofNat (0x80 + n % 64)

/-- The bytes of one character. -/
def encodeChar (c : Char) : List UInt8 :=
  let n := c.toNat
  if n < 0x80 then [UInt8.ofNat n]
  else if n < 0x800 then [UInt8.ofNat (0xC0 + n / 64), continuation n]
  else if n < 0x10000 then [UInt8.ofNat (0xE0 + n / 4096), continuation (n / 64), continuation n]
  else [UInt8.ofNat (0xF0 + n / 262144), continuation (n / 4096), continuation (n / 64),
    continuation n]

/-- The bytes of a text. -/
def encode (text : List Char) : List UInt8 := text.flatMap encodeChar

/-! ## Decoding -/

/-- A sequence that has begun: the bits read, the number of bytes missing, and the range of the
next one. -/
structure Pending where
  bits : Nat
  missing : Nat
  low : Nat
  high : Nat

/-- The text read so far, its last character first, and the sequence that is open. -/
structure Machine where
  text : List Char := []
  pending : Option Pending := none

/-- The sequence that a lead byte opens. -/
def open? (lead : Nat) : Option Pending :=
  if 0xC2 ≤ lead ∧ lead ≤ 0xDF then some ⟨lead - 0xC0, 1, 0x80, 0xBF⟩
  else if lead = 0xE0 then some ⟨0, 2, 0xA0, 0xBF⟩
  else if lead = 0xED then some ⟨0xD, 2, 0x80, 0x9F⟩
  else if 0xE1 ≤ lead ∧ lead ≤ 0xEF then some ⟨lead - 0xE0, 2, 0x80, 0xBF⟩
  else if lead = 0xF0 then some ⟨0, 3, 0x90, 0xBF⟩
  else if 0xF1 ≤ lead ∧ lead ≤ 0xF3 then some ⟨lead - 0xF0, 3, 0x80, 0xBF⟩
  else if lead = 0xF4 then some ⟨4, 3, 0x80, 0x8F⟩
  else none

/-- Reads a byte at a boundary. -/
def Machine.start (text : List Char) (byte : UInt8) : Machine :=
  let n := byte.toNat
  if n < 0x80 then { text := Char.ofNat n :: text }
  else
    match open? n with
    | some pending => { text, pending := some pending }
    | none => { text := replacement :: text }

/-- Reads a byte. -/
def Machine.step (machine : Machine) (byte : UInt8) : Machine :=
  match machine.pending with
  | none => start machine.text byte
  | some pending =>
    let n := byte.toNat
    if pending.low ≤ n ∧ n ≤ pending.high then
      let bits := pending.bits * 64 + n % 64
      if pending.missing = 1 then { text := Char.ofNat bits :: machine.text }
      else { machine with pending := some ⟨bits, pending.missing - 1, 0x80, 0xBF⟩ }
    else start (replacement :: machine.text) byte

/-- The text at the end of the input, where an open sequence is malformed. -/
def Machine.finish (machine : Machine) : List Char :=
  match machine.pending with
  | none => machine.text.reverse
  | some _ => (replacement :: machine.text).reverse

/-- The text of a byte string, malformed parts replaced. -/
def decode (bytes : List UInt8) : List Char := (bytes.foldl Machine.step {}).finish

end ByteLayout.Utf8
