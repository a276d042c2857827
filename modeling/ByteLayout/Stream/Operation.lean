import ByteLayout.Stream.Read
import ByteLayout.Stream.Write

/-!
# Operations of streams

What can be done to a stream, as data, so that a history of a stream is a list. Running an operation
gives what the corresponding function gives; `runAll` lists the outcomes of a whole history.
-/

namespace ByteLayout

/-- Something done to a write stream. -/
inductive WriteOperation where
  /-- Reserves a window and stores bytes at its beginning. -/
  | reserve (count : Nat) (bytes : List UInt8)
  | copy (bytes : List UInt8)
  | flush
  | finish
  | abort

/-- What an operation of a write stream gives. -/
inductive WriteAnswer where
  | nothing
  /-- A window as it was handed out. -/
  | window (bytes : List UInt8)
  /-- The number of bytes written in all. -/
  | total (bytes : Nat)

namespace WriteOperation

/-- Does something to a write stream. -/
def run (stream : WriteStream) : WriteOperation → Outcome WriteStream WriteAnswer
  | reserve count bytes =>
    (stream.reserve count).bind fun stream window =>
      ⟨.ok (.window window), stream.fill (bytes.take count ++ window.drop bytes.length), []⟩
  | copy bytes => (stream.copy bytes).bind fun stream _ => ⟨.ok .nothing, stream, []⟩
  | flush => stream.flush.bind fun stream _ => ⟨.ok .nothing, stream, []⟩
  | finish => stream.finish.bind fun stream total => ⟨.ok (.total total), stream, []⟩
  | abort => ⟨.ok .nothing, stream.abort, []⟩

/-- The outcomes of operations done one after the other, whether they succeed or not. -/
def runAll (stream : WriteStream) :
    List WriteOperation → List (Outcome WriteStream WriteAnswer)
  | [] => []
  | operation :: rest =>
    let outcome := run stream operation
    outcome :: runAll outcome.stream rest

end WriteOperation

/-- Something done to a read stream. -/
inductive ReadOperation where
  | await (count : Nat)
  | take (count : Nat)
  | read (count : Nat)
  | close
  | abort

/-- What an operation of a read stream gives. -/
inductive ReadAnswer where
  | nothing
  | bytes (bytes : List UInt8)

namespace ReadOperation

/-- Does something to a read stream. -/
def run (stream : ReadStream) : ReadOperation → Outcome ReadStream ReadAnswer
  | await count => (stream.await count).bind fun stream _ => ⟨.ok .nothing, stream, []⟩
  | take count => (stream.take count).bind fun stream bytes => ⟨.ok (.bytes bytes), stream, []⟩
  | read count => (stream.readBytes count).bind fun stream bytes => ⟨.ok (.bytes bytes), stream, []⟩
  | close => stream.close.bind fun stream _ => ⟨.ok .nothing, stream, []⟩
  | abort => ⟨.ok .nothing, stream.abort, []⟩

/-- The outcomes of operations done one after the other, whether they succeed or not. -/
def runAll (stream : ReadStream) : List ReadOperation → List (Outcome ReadStream ReadAnswer)
  | [] => []
  | operation :: rest =>
    let outcome := run stream operation
    outcome :: runAll outcome.stream rest

end ReadOperation

end ByteLayout
