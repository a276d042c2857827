import ByteLayout.Error

/-!
# Sinks

A sink takes the bytes of one file. How it behaves is a function: offered some bytes, it accepts a
part of them or fails, depending on how many it has accepted before; it may also fail when it is
flushed or shut down. As a sink that accepts nothing is never offered anything again, the number of
bytes accepted so far stands for the whole history.

`Sink.writeAll` hands over a run of bytes, however many writes it takes. The bytes that were
accepted before a failure stay accepted.
-/

namespace ByteLayout

/-- The answer of a sink to a write. -/
inductive WriteReply where
  /-- So many bytes were accepted, or all that were offered if that is less. -/
  | accepted (bytes : Nat)
  | failed (error : IoError)

/-- How a sink behaves. -/
structure SinkBehaviour where
  /-- The answer to a write, given the number of bytes accepted before and of those offered. -/
  write : Nat → Nat → WriteReply := fun _ offered => .accepted offered
  flushError : Option IoError := none
  shutdownError : Option IoError := none

/-- A sink that accepts whatever it is offered. -/
def SinkBehaviour.faultless : SinkBehaviour := {}

/-- A sink with what it has received. -/
structure Sink where
  behaviour : SinkBehaviour
  /-- The bytes accepted. -/
  data : Array UInt8 := #[]
  /-- The size of every accepted write. -/
  chunks : Array Nat := #[]
  /-- How often it was asked to flush. -/
  flushes : Nat := 0
  /-- Whether it was shut down. -/
  closed : Bool := false

namespace Sink

/-- A sink that has received nothing. -/
def ofBehaviour (behaviour : SinkBehaviour) : Sink := { behaviour }

/-- The sink after a write of which it accepted `bytes`. -/
def accept (sink : Sink) (bytes : List UInt8) : Sink :=
  { sink with data := sink.data ++ bytes, chunks := sink.chunks.push bytes.length }

@[simp] theorem data_accept (sink : Sink) (bytes : List UInt8) :
    (sink.accept bytes).data.toList = sink.data.toList ++ bytes := by
  simp [accept]

/-- Hands over a run of `offered` bytes; what the sink does not accept at once is offered again. -/
def writeFrom (sink : Sink) (offered : Nat) : List UInt8 → Sink × Option IoError
  | [] => (sink, none)
  | byte :: rest =>
    match sink.behaviour.write sink.data.size offered with
    | .failed error => (sink, some error)
    | .accepted 0 => (sink.accept [], some .writeZero)
    | .accepted (n + 1) =>
      writeFrom (sink.accept (byte :: rest.take n)) (offered - (n + 1)) (rest.drop n)
termination_by bytes => bytes.length
decreasing_by simp only [List.length_cons, List.length_drop]; omega

/-- Hands over a run of bytes. -/
def writeAll (sink : Sink) (bytes : List UInt8) : Sink × Option IoError :=
  sink.writeFrom bytes.length bytes

/-- Asks the sink to flush. -/
def flush (sink : Sink) : Sink × Option IoError :=
  ({ sink with flushes := sink.flushes + 1 }, sink.behaviour.flushError)

/-- Shuts the sink down. -/
def shutDown (sink : Sink) : Sink × Option IoError :=
  match sink.behaviour.shutdownError with
  | some error => (sink, some error)
  | none => ({ sink with closed := true }, none)

end Sink

end ByteLayout
