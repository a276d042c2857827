import ByteLayout.Stream.Buffer
import ByteLayout.Stream.Sink
import ByteLayout.Stream.State

/-!
# Write streams

A write stream collects bytes in a buffer of fixed capacity and hands them to its sink a bufferful
at a time. `reserve` hands out a window of the buffer for a scalar, which never straddles two
flushes; `copy` lets bytes of any number flow through the buffer; `finish` flushes the rest and
shuts the sink down.

Once it is closed or errored, a stream refuses everything. The bytes that the sink accepted before a
failure stay with the sink.
-/

namespace ByteLayout

/-- A buffer in front of a sink. The path only labels errors and events. -/
structure WriteStream where
  sink : Sink
  buffer : Buffer
  flushed : Nat
  state : StreamState
  path : String

namespace WriteStream

/-- A stream in front of a fresh sink. -/
def create (behaviour : SinkBehaviour) (capacity : Nat) (path : String) : WriteStream where
  sink := .ofBehaviour behaviour
  buffer := .ofCapacity capacity
  flushed := 0
  state := .ready
  path := path

def capacity (stream : WriteStream) : Nat := stream.buffer.capacity

/-- The number of bytes accepted so far, flushed or not. -/
def position (stream : WriteStream) : Nat := stream.flushed + stream.buffer.size

/-- The stream after a failure of its sink. -/
def fail {α : Type} (stream : WriteStream) (error : IoError) (events : List Event) :
    Outcome WriteStream α :=
  ⟨.error (.io stream.path error), { stream with state := .errored }, events⟩

/-- Does something unless the stream is over. -/
def live {α : Type} (stream : WriteStream) (f : WriteStream → Outcome WriteStream α) :
    Outcome WriteStream α :=
  if stream.state.isOver then ⟨.error (.poisoned stream.path), stream, []⟩ else f stream

/-- Hands the buffered bytes, of which there are some, to the sink. -/
def drain (stream : WriteStream) : Outcome WriteStream Unit :=
  let { sink, buffer, flushed, state, path } := stream
  let bytes := buffer.size
  let offered := Event.sink path (.offered bytes)
  match sink.writeAll buffer.bytes with
  | (sink, some error) => fail { sink, buffer, flushed, state, path } error [offered]
  | (sink, none) =>
    { result := .ok ()
      stream := { sink, buffer := buffer.clear, flushed := flushed + bytes, state, path }
      events := [offered, .trace (.flushed path bytes flushed)] }

/-- Hands the buffered bytes to the sink. -/
def flush (stream : WriteStream) : Outcome WriteStream Unit :=
  stream.live fun stream =>
    if stream.buffer.isEmpty then ⟨.ok (), stream, []⟩ else stream.drain

/-- Makes sure that a window of `count` bytes is free at the cursor and gives it as it is, stale
bytes included. The window is consumed by `fill`. -/
def reserve (stream : WriteStream) (count : Nat) : Outcome WriteStream (List UInt8) :=
  stream.live fun stream =>
    if stream.capacity < count then
      ⟨.error (.invalidValue stream.path (.windowTooLarge count stream.capacity)), stream, []⟩
    else
      let freed : Outcome WriteStream Unit :=
        if stream.buffer.room < count then stream.flush else ⟨.ok (), stream, []⟩
      freed.bind fun stream _ =>
        ⟨.ok (stream.buffer.window count), { stream with state := .streaming }, []⟩

/-- Puts the content of a reserved window behind the cursor. -/
def fill (stream : WriteStream) (bytes : List UInt8) : WriteStream :=
  { stream with buffer := stream.buffer.append bytes }

/-- Reserves a window for some bytes and fills it with them. -/
def put (stream : WriteStream) (bytes : List UInt8) : Outcome WriteStream Unit :=
  (stream.reserve bytes.length).bind fun stream _ => ⟨.ok (), stream.fill bytes, []⟩

/-- Lets bytes through the buffer, which is flushed when it is full and more bytes come. The events
so far are given last first. -/
def pump (stream : WriteStream) (bytes : List UInt8) (events : List Event) :
    Outcome WriteStream Unit :=
  match bytes with
  | [] => ⟨.ok (), stream, events.reverse⟩
  | byte :: rest =>
    let freed : Outcome WriteStream Unit :=
      if stream.buffer.isFull then stream.flush else ⟨.ok (), stream, []⟩
    let events := freed.events.reverse ++ events
    match freed.result, freed.stream.buffer.room with
    | .error error, _ => ⟨.error error, freed.stream, events.reverse⟩
    | .ok (), 0 => ⟨.ok (), freed.stream, events.reverse⟩
    | .ok (), room + 1 => pump (freed.stream.fill (byte :: rest)) (rest.drop room) events
termination_by bytes.length
decreasing_by simp only [List.length_cons, List.length_drop]; omega

/-- Puts bytes of any number. -/
def copy (stream : WriteStream) (bytes : List UInt8) : Outcome WriteStream Unit :=
  stream.live fun stream => pump { stream with state := .streaming } bytes []

/-- Flushes and shuts down the sink of a stream whose buffer is empty, and gives the number of bytes
written. -/
def close (stream : WriteStream) : Outcome WriteStream Nat :=
  let flushed := stream.sink.flush
  let stream := { stream with sink := flushed.1 }
  match flushed.2 with
  | some error => stream.fail error [.sink stream.path (.flushed false)]
  | none =>
    let events := [Event.sink stream.path (.flushed true)]
    let shut := stream.sink.shutDown
    let stream := { stream with sink := shut.1 }
    match shut.2 with
    | some error => stream.fail error (events ++ [.sink stream.path (.shutDown false)])
    | none =>
      { result := .ok stream.flushed
        stream := { stream with state := .closed }
        events := events ++ [.sink stream.path (.shutDown true),
          .trace (.writeClosed stream.path stream.flushed)] }

/-- Flushes what is left and shuts the sink down. -/
def finish (stream : WriteStream) : Outcome WriteStream Nat :=
  stream.live fun stream =>
    (flush { stream with state := .finalizing }).bind fun stream _ => stream.close

/-- Marks a stream that is not closed as failed. -/
def abort (stream : WriteStream) : WriteStream :=
  if stream.state = .closed then stream else { stream with state := .errored }

end WriteStream

end ByteLayout
