import ByteLayout.Dialogue
import ByteLayout.Scalar.Float
import ByteLayout.Scope

/-!
# Codecs

Fields that the built-in kinds cannot describe have a codec of their own. The **encoder** is given
the value of the field and builds its bytes; the engine copies them into the stream, all of them or,
if the encoder fails, none. The **decoder** asks the stream for bytes as the engine itself does, and
learns of every failure, so that it may carry on after one.

`Encoding` and `Decoding` are the languages in which the two are written.
-/

namespace ByteLayout

/-! ## Encoders -/

/-- A step of an encoder: it knows the bytes put so far and may add to them. -/
def Encoding (α : Type) : Type := List UInt8 → Noted (Except Fault (α × List UInt8))

namespace Encoding

variable {α β : Type}

def pure (a : α) : Encoding α := fun written => ⟨.ok (a, written), []⟩

def bind (step : Encoding α) (f : α → Encoding β) : Encoding β := fun written =>
  (step written).bind fun
    | .ok (a, written) => f a written
    | .error fault => ⟨.error fault, []⟩

instance : Monad Encoding where
  pure := pure
  bind := bind

/-- The bytes put so far. -/
def written : Encoding (List UInt8) := fun written => ⟨.ok (written, written), []⟩

/-- Puts bytes. -/
def putBytes (bytes : List UInt8) : Encoding Unit := fun written =>
  ⟨.ok ((), written ++ bytes), []⟩

/-- Puts an integer of a kind. -/
def putInt (order : ByteOrder) (kind : IntKind) (n : Int) : Encoding Unit :=
  putBytes (kind.encode order n)

/-- Puts the bit pattern of a float of a kind. -/
def putFloat (order : ByteOrder) (kind : FloatKind) (bits : Nat) : Encoding Unit :=
  putBytes (kind.encodeBits order bits)

/-- Leaves a note. -/
def note (tag : String) (value : Value) : Encoding Unit := fun written =>
  ⟨.ok ((), written), [⟨tag, value⟩]⟩

/-- Gives up. -/
def fail (fault : Fault) : Encoding α := fun _ => ⟨.error fault, []⟩

/-- A result that comes with notes. -/
def lift (x : Noted α) : Encoding α := fun written => x.map fun a => .ok (a, written)

/-- The bytes of a whole encoding. -/
def run (encoding : Encoding Unit) : Noted (Except Fault (List UInt8)) :=
  (encoding []).map fun
    | .ok (_, written) => .ok written
    | .error fault => .error fault

end Encoding

/-! ## Decoders -/

/-- What a decoder may ask. -/
inductive DecoderQuestion where
  /-- Leaves a note. -/
  | note (note : Note)
  /-- Waits until so many unread bytes are there. -/
  | await (count : Nat)
  /-- Waits for so many bytes and consumes them at once. -/
  | fetch (count : Nat)
  /-- Consumes so many bytes, one chunk of the stream after the other. -/
  | read (count : Nat)
  /-- The offset of the next byte in the stream. -/
  | position

/-- The replies to the questions of a decoder. -/
def DecoderQuestion.Reply : DecoderQuestion → Type
  | note _ => Unit
  | await _ => Except Error Unit
  | fetch _ => Except Error (List UInt8)
  | read _ => Except Error (List UInt8)
  | position => Nat

/-- A decoder at work: it ends with a result or a fault. -/
def Decoding (α : Type) : Type := Dialogue DecoderQuestion.Reply (Except Fault α)

namespace Decoding

variable {α β : Type}

def pure (a : α) : Decoding α := .done (.ok a)

/-- Gives up. -/
def fail (fault : Fault) : Decoding α := .done (.error fault)

/-- Goes on after a result; a fault ends the decoding. -/
def bind (decoding : Decoding α) (f : α → Decoding β) : Decoding β :=
  Dialogue.andThen decoding f

instance : Monad Decoding where
  pure := pure
  bind := bind

/-- Starts again with something else after a fault; what was consumed stays consumed. -/
def orElse (decoding fallback : Decoding α) : Decoding α :=
  Dialogue.bind decoding fun
    | .ok a => pure a
    | .error _ => fallback

/-- A reply as a result, an error of the stream being passed on. -/
def ofReply : Except Error α → Decoding α
  | .ok a => pure a
  | .error error => fail (.library error)

/-- Leaves a note. -/
def note (tag : String) (value : Value) : Decoding Unit :=
  .ask (.note ⟨tag, value⟩) fun _ => pure ()

/-- Waits until so many unread bytes are there, without consuming them. -/
def await (count : Nat) : Decoding Unit :=
  .ask (.await count) fun reply => ofReply reply

/-- Waits for so many bytes and consumes them at once. -/
def fetch (count : Nat) : Decoding (List UInt8) :=
  .ask (.fetch count) fun reply => ofReply reply

/-- Reads so many bytes. -/
def readBytes (count : Nat) : Decoding (List UInt8) :=
  .ask (.read count) fun reply => ofReply reply

/-- Reads an integer of a kind. -/
def readInt (order : ByteOrder) (kind : IntKind) : Decoding Int := do
  let bytes ← fetch kind.width
  return kind.decode order bytes

/-- Reads the bit pattern of a float of a kind. -/
def readFloat (order : ByteOrder) (kind : FloatKind) : Decoding Nat := do
  let bytes ← fetch kind.width
  return FloatKind.decodeBits order bytes

/-- The offset of the next byte. -/
def position : Decoding Nat := .ask .position fun reply => pure reply

end Decoding

/-- The encoder and the decoder of a field. -/
structure Codec where
  encode : CodecContext → Value → Encoding Unit
  decode : CodecContext → Decoding Value

end ByteLayout
