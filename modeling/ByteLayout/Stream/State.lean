import ByteLayout.Journal

/-!
# The life of a stream

A stream is ready, streams, is finalized and then closed; any failure of its sink or source, and an
abort, makes it errored for good. Operations of a stream give their result, the stream afterwards,
and the events that they caused.
-/

namespace ByteLayout

/-- Where a stream is in its life. -/
inductive StreamState where
  | ready
  | streaming
  | finalizing
  | closed
  | errored
  deriving DecidableEq, Repr

namespace StreamState

def name : StreamState → String
  | ready => "Ready"
  | streaming => "Streaming"
  | finalizing => "Finalizing"
  | closed => "Closed"
  | errored => "Errored"

/-- Whether nothing more can be done with the stream. -/
def isOver : StreamState → Bool
  | closed | errored => true
  | ready | streaming | finalizing => false

end StreamState

/-- What an operation of a stream brings about. -/
structure Outcome (Stream α : Type) where
  result : Except Error α
  stream : Stream
  events : List Event := []

namespace Outcome

variable {Stream α β : Type}

/-- Goes on after a success, and stops at a failure. -/
def bind (outcome : Outcome Stream α) (f : Stream → α → Outcome Stream β) : Outcome Stream β :=
  match outcome.result with
  | .error error => ⟨.error error, outcome.stream, outcome.events⟩
  | .ok a =>
    let next := f outcome.stream a
    { next with events := outcome.events ++ next.events }

end Outcome

end ByteLayout
