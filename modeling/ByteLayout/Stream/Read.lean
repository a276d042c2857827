import ByteLayout.Stream.Queue
import ByteLayout.Stream.Source
import ByteLayout.Stream.State

/-!
# Read streams

A read stream asks its source for one chunk at a time and keeps the bytes that came in and were not
consumed yet. `await` fills until enough of them are there, `take` consumes bytes that are there
already, and `readBytes` consumes any number, chunk by chunk.

A source that fails makes the stream errored; one that ends makes it complete, and then the bytes
that are still there can be used. What `take` gives does not depend on the state of the stream.
-/

namespace ByteLayout

/-- Unread bytes in front of a source. The path only labels errors and events. -/
structure ReadStream where
  source : Source
  resident : ByteQueue
  chunk : Nat
  consumed : Nat
  /-- Whether the source has ended. -/
  complete : Bool
  state : StreamState
  path : String

namespace ReadStream

/-- A stream in front of a fresh source; a chunk of no byte is raised to one. -/
def create (behaviour : SourceBehaviour) (chunk : Nat) (path : String) : ReadStream where
  source := .ofBehaviour behaviour
  resident := .empty
  chunk := max chunk 1
  consumed := 0
  complete := false
  state := .ready
  path := path

/-- The number of bytes that are there and unread. -/
def available (stream : ReadStream) : Nat := stream.resident.size

/-- The number of bytes consumed. -/
def position (stream : ReadStream) : Nat := stream.consumed

/-- Takes in the answer of the source. -/
def receive (stream : ReadStream) : Except IoError (List UInt8) → Outcome ReadStream Unit
  | .error error => ⟨.error (.io stream.path error), { stream with state := .errored }, []⟩
  | .ok [] =>
    { result := .ok ()
      stream := { stream with complete := true }
      events := [.trace (.sourceEnded stream.path stream.consumed)] }
  | .ok (byte :: rest) =>
    let resident := stream.resident.push (byte :: rest)
    { result := .ok ()
      stream := { stream with resident }
      events := [.trace (.filled stream.path (rest.length + 1) resident.size)] }

/-- Asks the source for one chunk. -/
def fillOnce (stream : ReadStream) : Outcome ReadStream Unit :=
  let { source, resident, chunk, consumed, complete, state := _, path } := stream
  let (source, answer) := source.read chunk
  receive { source, resident, chunk, consumed, complete, state := .streaming, path } answer

/-- What is still to come before `count` bytes are there: the missing ones, and the end. -/
def outstanding (stream : ReadStream) (count : Nat) : Nat :=
  (count - stream.available) + (!stream.complete).toNat

theorem outstanding_receive_lt {stream : ReadStream} {count : Nat}
    {answer : Except IoError (List UInt8)} (hcount : stream.available < count)
    (hcomplete : stream.complete = false) (hok : (stream.receive answer).result = .ok ()) :
    (stream.receive answer).stream.outstanding count < stream.outstanding count := by
  unfold available at hcount
  unfold outstanding available
  match answer with
  | .error error => cases hok
  | .ok [] => simp [receive, hcomplete]
  | .ok (byte :: rest) =>
    simp only [receive, ByteQueue.push, hcomplete, List.length_cons]
    omega

/-- A chunk brings a byte or the end. -/
theorem outstanding_fillOnce_lt {stream : ReadStream} {count : Nat}
    (hcount : stream.available < count) (hcomplete : stream.complete = false)
    (hok : stream.fillOnce.result = .ok ()) :
    stream.fillOnce.stream.outstanding count < stream.outstanding count :=
  outstanding_receive_lt hcount hcomplete hok

theorem outstanding_lt_of_fillOnce_eq {stream filled : ReadStream} {count : Nat}
    {events : List Event} (hcount : ¬count ≤ stream.available) (hcomplete : ¬stream.complete)
    (hfilled : stream.fillOnce = ⟨.ok (), filled, events⟩) :
    filled.outstanding count < stream.outstanding count := by
  have h := outstanding_fillOnce_lt (Nat.lt_of_not_le hcount) (eq_false_of_ne_true hcomplete)
    (congrArg Outcome.result hfilled)
  rwa [hfilled] at h

/-- Fills until `count` unread bytes are there. The events so far are given last first. -/
def fillUntil (stream : ReadStream) (count : Nat) (events : List Event) :
    Outcome ReadStream Unit :=
  if stream.state.isOver then ⟨.error (.poisoned stream.path), stream, events.reverse⟩
  else if _ : count ≤ stream.available then ⟨.ok (), stream, events.reverse⟩
  else if _ : stream.complete then
    ⟨.error (.unexpectedEnd stream.path (count - stream.available)), stream, events.reverse⟩
  else
    match _ : stream.fillOnce with
    | ⟨.error error, filled, more⟩ => ⟨.error error, filled, (more.reverse ++ events).reverse⟩
    | ⟨.ok (), filled, more⟩ => fillUntil filled count (more.reverse ++ events)
termination_by stream.outstanding count
decreasing_by exact outstanding_lt_of_fillOnce_eq ‹_› ‹_› ‹_›

/-- Waits until `count` unread bytes are there, and consumes none. -/
def await (stream : ReadStream) (count : Nat) : Outcome ReadStream Unit :=
  stream.fillUntil count []

/-- Consumes `count` bytes that are there. -/
def take (stream : ReadStream) (count : Nat) : Outcome ReadStream (List UInt8) :=
  if stream.available < count then
    ⟨.error (.unexpectedEnd stream.path (count - stream.available)), stream, []⟩
  else
    let popped := stream.resident.pop count
    { result := .ok popped.1
      stream := { stream with resident := popped.2, consumed := stream.consumed + count } }

/-- Waits for `count` bytes and consumes them. -/
def fetch (stream : ReadStream) (count : Nat) : Outcome ReadStream (List UInt8) :=
  (stream.await count).bind fun stream _ => stream.take count

/-- Consumes `count` bytes, at most one chunk at a time. What was read so far is given, and so are
the events, last first. -/
def collect (stream : ReadStream) (count : Nat) (bytes : Array UInt8) (events : List Event) :
    Outcome ReadStream (List UInt8) :=
  if count = 0 then ⟨.ok bytes.toList, stream, events.reverse⟩
  else
    let portion := max 1 (min count stream.chunk)
    let fetched := stream.fetch portion
    let events := fetched.events.reverse ++ events
    match fetched.result with
    | .error error => ⟨.error error, fetched.stream, events.reverse⟩
    | .ok more => collect fetched.stream (count - portion) (bytes ++ more) events
termination_by count
decreasing_by omega

/-- Consumes `count` bytes, at most one chunk at a time. -/
def readBytes (stream : ReadStream) (count : Nat) : Outcome ReadStream (List UInt8) :=
  stream.collect count #[] []

/-- Drops what is left unread. A stream that failed stays so. -/
def close (stream : ReadStream) : Outcome ReadStream Unit where
  result := .ok ()
  stream :=
    { stream with
      state := if stream.state = .errored then .errored else .closed
      resident := .empty }
  events := [.trace (.readClosed stream.path stream.consumed)]

/-- Marks the stream as failed. -/
def abort (stream : ReadStream) : ReadStream := { stream with state := .errored }

end ReadStream

end ByteLayout
