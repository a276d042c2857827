import ByteLayout.Codec
import ByteLayout.Formula
import ByteLayout.Text.Encoding

/-!
# Codecs from statements

Encoders and decoders as lists of statements over formulas. An encoder sees the value of its field
and the bytes it has put so far; a decoder sees the variables it has assigned and the position in
the stream. A decoder may try statements and, if they fail, go on with others: variables assigned
and bytes consumed before the failure stay as they are.
-/

namespace ByteLayout

/-- A kind of scalar. -/
inductive Scalar where
  | int (kind : IntKind)
  | float (kind : FloatKind)
  deriving DecidableEq, Repr

/-- A statement of an encoder. -/
inductive EncoderStatement where
  | put (scalar : Scalar) (of : Formula)
  | bytes (bytes : List UInt8)
  | text (of : Formula)
  | tap (tag : String) (of : Formula)
  | branch (condition : Formula) (positive negative : List EncoderStatement)
  | fail (fault : Fault)

/-- A statement of a decoder. -/
inductive DecoderStatement where
  | read (scalar : Scalar) (name : String)
  | bytes (count : Formula) (name : String)
  | text (count : Formula) (name : String)
  | await (count : Formula)
  | tap (tag : String) (of : Formula)
  | branch (condition : Formula) (positive negative : List DecoderStatement)
  | fail (fault : Fault)
  | attempt (body fallback : List DecoderStatement)
  | give (result : Formula)

/-! ## Hexadecimal -/

/-- Two hexadecimal digits. -/
def hexByte (byte : UInt8) : List Char :=
  [Nat.digitChar (byte.toNat / 16), Nat.digitChar (byte.toNat % 16)]

/-- The bytes in hexadecimal, in lower case. -/
def hexText (bytes : List UInt8) : String := String.ofList (bytes.flatMap hexByte)

/-! ## Encoders -/

/-- The environment of an encoder or decoder. -/
def CodecContext.environment (context : CodecContext) (bindings : Fields Value) : Environment where
  path := context.path
  order := some context.order
  user := context.user
  record := context.record
  bindings := bindings

/-- The double that a value is nearest to; anything but a number is zero. -/
def Value.toDouble (value : Value) : Double :=
  let zero : Double := ⟨false, 0, by decide⟩
  match value with
  | .number n => ((FloatKind.toDouble n).toOption).getD zero
  | _ => zero

/-- A value as one of a kind: an integer wrapped into its range, a number rounded to a float. -/
def Scalar.convert (scalar : Scalar) (value : Value) : Value :=
  match scalar with
  | int kind => .int (kind.wrap (value.asInt?.getD 0))
  | float kind => kind.ofBits (value.toDouble.bitsIn kind.format)

namespace EncoderStatement

/-- Evaluates a formula within an encoder. -/
def eval (context : CodecContext) (value : Value) (formula : Formula) : Encoding Value := do
  let written ← Encoding.written
  let bindings := Fields.ofList [("value", value), ("written", .string (hexText written))]
  Encoding.lift (formula.eval (context.environment bindings))

mutual

/-- Runs a statement. -/
def run (context : CodecContext) (value : Value) : EncoderStatement → Encoding Unit
  | put scalar formula =>
    (eval context value formula).bind fun value =>
      match scalar with
      | .int kind => Encoding.putInt context.order kind (value.asInt?.getD 0)
      | .float kind => Encoding.putFloat context.order kind (value.toDouble.bitsIn kind.format)
  | bytes content => Encoding.putBytes content
  | text formula =>
    (eval context value formula).bind fun
      | .string content => Encoding.putBytes (Utf8.encode content.toList)
      | _ => Encoding.pure ()
  | tap tag formula => (eval context value formula).bind fun value => Encoding.note tag value
  | branch condition positive negative =>
    (eval context value condition).bind fun holds =>
      if holds.isTrue then runAll context value positive else runAll context value negative
  | fail fault => Encoding.fail fault

/-- Runs statements one after the other. -/
def runAll (context : CodecContext) (value : Value) : List EncoderStatement → Encoding Unit
  | [] => Encoding.pure ()
  | statement :: rest => (run context value statement).bind fun _ => runAll context value rest

end

end EncoderStatement

/-! ## Decoders -/

/-- The text of bytes that are well-formed UTF-8. -/
def Utf8.decode? (bytes : List UInt8) : Option String :=
  let text := decode bytes
  if encode text = bytes then some (String.ofList text) else none

/-- How statements of a decoder end: by falling off the end, by giving a result, or with a fault. -/
inductive Ending where
  | next
  | result (value : Value)
  | fault (fault : Fault)

/-- Statements of a decoder at work: they end with the variables as they are then. -/
abbrev Running : Type := Dialogue DecoderQuestion.Reply (Fields Value × Ending)

namespace Running

/-- Goes on at the end. -/
def andThen (running : Running) (f : Fields Value → Running) : Running :=
  running.bind fun
    | (bindings, .next) => f bindings
    | (bindings, ending) => .done (bindings, ending)

/-- Goes on after a fault. -/
def orElse (running : Running) (f : Fields Value → Running) : Running :=
  running.bind fun
    | (bindings, .fault _) => f bindings
    | (bindings, ending) => .done (bindings, ending)

/-- Goes on with the value of a formula. -/
def eval (context : CodecContext) (bindings : Fields Value) (formula : Formula)
    (f : Value → Running) : Running :=
  let answer := formula.eval (context.environment bindings)
  answer.notes.foldr (fun note rest => .ask (.note note) fun _ => rest) (f answer.value)

/-- Assigns what a decoding gives. -/
def assign (bindings : Fields Value) (name : String) (decoding : Decoding Value) : Running :=
  Dialogue.bind decoding fun
    | .ok value => Dialogue.done (Fields.insert bindings name value, .next)
    | .error fault => .done (bindings, .fault fault)

end Running

namespace DecoderStatement

/-- Reads a scalar as a value. -/
def readScalar (context : CodecContext) : Scalar → Decoding Value
  | .int kind => return .int (← Decoding.readInt context.order kind)
  | .float kind => return kind.ofBits (← Decoding.readFloat context.order kind)

/-- Reads bytes as a text. -/
def readText (count : Nat) : Decoding Value := do
  let bytes ← Decoding.readBytes count
  match Utf8.decode? bytes with
  | some content => return .string content
  | none => .fail (.foreign "bad utf8")

/-- Reads bytes as their hexadecimal digits. -/
def readHex (count : Nat) : Decoding Value := do
  let bytes ← Decoding.readBytes count
  return .string (hexText bytes)

mutual

/-- Runs a statement. -/
def run (context : CodecContext) (bindings : Fields Value) : DecoderStatement → Running
  | read scalar name => Running.assign bindings name (readScalar context scalar)
  | bytes count name =>
    Running.eval context bindings count fun count =>
      Running.assign bindings name (readHex count.count)
  | text count name =>
    Running.eval context bindings count fun count =>
      Running.assign bindings name (readText count.count)
  | await count =>
    Running.eval context bindings count fun count =>
      Dialogue.bind (Decoding.await count.count) fun
        | .ok _ => .done (bindings, .next)
        | .error fault => .done (bindings, .fault fault)
  | tap tag formula =>
    Running.eval context bindings formula fun value =>
      .ask (.note ⟨tag, value⟩) fun _ => .done (bindings, .next)
  | branch condition positive negative =>
    Running.eval context bindings condition fun holds =>
      if holds.isTrue then runAll context bindings positive
      else runAll context bindings negative
  | fail fault => .done (bindings, .fault fault)
  | attempt body fallback =>
    (runAll context bindings body).orElse fun bindings => runAll context bindings fallback
  | give formula =>
    Running.eval context bindings formula fun value => .done (bindings, .result value)

/-- Runs statements one after the other, each knowing the position at which it starts. -/
def runAll (context : CodecContext) (bindings : Fields Value) :
    List DecoderStatement → Running
  | [] => .done (bindings, .next)
  | statement :: rest =>
    .ask .position fun (position : Nat) =>
      (run context (Fields.insert bindings "position" (.int position)) statement).andThen
        fun bindings => runAll context bindings rest

end

/-- Runs the statements of a whole decoder. -/
def decode (statements : List DecoderStatement) (context : CodecContext) : Decoding Value :=
  Dialogue.bind (runAll context [] statements) fun
    | (_, .next) => .done (.ok .null)
    | (_, .result value) => .done (.ok value)
    | (_, .fault fault) => .done (.error fault)

end DecoderStatement

/-- The codec of two lists of statements. -/
def Codec.ofStatements (encoder : List EncoderStatement) (decoder : List DecoderStatement) :
    Codec where
  encode context value := EncoderStatement.runAll context value encoder
  decode := DecoderStatement.decode decoder

end ByteLayout
