import ByteLayout.Text.Utf8

/-!
# UTF-16, little end first

A character takes one unit of sixteen bits, or two (a high and a low surrogate) beyond U+FFFF. Every
unit is written low byte first. Decoding replaces each surrogate without its partner by U+FFFD, and
a single byte left over at the end by one more.
-/

namespace ByteLayout.Utf16

/-! ## Units -/

/-- The units of one character. -/
def charUnits (c : Char) : List Nat :=
  let n := c.toNat
  if n < 0x10000 then [n]
  else [0xD800 + (n - 0x10000) / 1024, 0xDC00 + (n - 0x10000) % 1024]

/-- The units of a text. -/
def units (text : List Char) : List Nat := text.flatMap charUnits

def isHighSurrogate (unit : Nat) : Bool := decide (0xD800 ≤ unit) && decide (unit < 0xDC00)

def isLowSurrogate (unit : Nat) : Bool := decide (0xDC00 ≤ unit) && decide (unit < 0xE000)

/-- The text read so far, its last character first, and a high surrogate that waits for its
partner. -/
structure Machine where
  text : List Char := []
  high : Option Nat := none

/-- Reads a unit where no surrogate waits. -/
def Machine.start (text : List Char) (unit : Nat) : Machine :=
  if isHighSurrogate unit then { text, high := some unit }
  else if isLowSurrogate unit then { text := Utf8.replacement :: text }
  else { text := Char.ofNat unit :: text }

/-- Reads a unit. -/
def Machine.step (machine : Machine) (unit : Nat) : Machine :=
  match machine.high with
  | none => start machine.text unit
  | some high =>
    if isLowSurrogate unit then
      { text := Char.ofNat (0x10000 + (high - 0xD800) * 1024 + (unit - 0xDC00)) :: machine.text }
    else start (Utf8.replacement :: machine.text) unit

/-- The text at the end of the input, last character first. -/
def Machine.finish (machine : Machine) : List Char :=
  match machine.high with
  | none => machine.text
  | some _ => Utf8.replacement :: machine.text

/-! ## Bytes -/

/-- The two bytes of a unit. -/
def unitBytes (unit : Nat) : List UInt8 := [UInt8.ofNat unit, UInt8.ofNat (unit / 256)]

/-- The bytes of a text. -/
def encode (text : List Char) : List UInt8 := (units text).flatMap unitBytes

/-- The machine together with the first byte of a unit, if one was read. -/
structure ByteMachine where
  machine : Machine := {}
  low : Option UInt8 := none

/-- Reads a byte: the first of a unit waits for the second. -/
def ByteMachine.step (state : ByteMachine) (byte : UInt8) : ByteMachine :=
  match state.low with
  | none => { state with low := some byte }
  | some low => { machine := state.machine.step (low.toNat + 256 * byte.toNat) }

/-- The text at the end of the input, where a single byte is malformed. -/
def ByteMachine.finish (state : ByteMachine) : List Char :=
  match state.low with
  | none => state.machine.finish.reverse
  | some _ => (Utf8.replacement :: state.machine.finish).reverse

/-- The text of a byte string, malformed parts replaced. -/
def decode (bytes : List UInt8) : List Char := (bytes.foldl ByteMachine.step {}).finish

end ByteLayout.Utf16
