import ByteLayout.Codec
import ByteLayout.Journal

/-!
# Plans

What a read pass does depends on the bytes it has read, and on nothing else of its sources. So it is
a dialogue with the streams, a **plan**: it asks for files to be opened and for bytes, and goes on
with what it gets. How the bytes come in, chunk by chunk and portion by portion, is the business of
the one who replies (`Read.Stage`).

The first error ends a plan, except where a decoder goes on after one (`Plan.decode`).
-/

namespace ByteLayout.Read

/-- What a read pass asks for. -/
inductive Question where
  /-- Something to be written down. -/
  | record (event : Event)
  /-- A field begins at the current offset. -/
  | field (path kind : String)
  | openFile (path : String)
  | closeFile (path : String)
  /-- Waits until so many unread bytes are there. -/
  | await (count : Nat)
  /-- Waits for so many bytes and consumes them at once. -/
  | fetch (count : Nat)
  /-- Consumes so many bytes, one chunk of the stream after the other. -/
  | read (count : Nat)
  /-- The offset of the next byte in the stream. -/
  | position

/-- The replies to the questions of a read pass. -/
def Question.Reply : Question → Type
  | record _ => Unit
  | field _ _ => Unit
  | openFile _ => Except Error Unit
  | closeFile _ => Unit
  | await _ => Except Error Unit
  | fetch _ => Except Error (List UInt8)
  | read _ => Except Error (List UInt8)
  | position => Nat

/-- A read pass or a part of it: it ends with a result or an error. -/
def Plan (α : Type) : Type := Dialogue Question.Reply (Except Error α)

namespace Plan

variable {α β : Type}

/-- No question and a result. -/
def pure (a : α) : Plan α := .done (.ok a)

/-- No question and an error. -/
def fail (error : Error) : Plan α := .done (.error error)

/-- Goes on after a result; an error ends the plan. -/
def bind (plan : Plan α) (f : α → Plan β) : Plan β := Dialogue.andThen plan f

instance : Monad Plan where
  pure := pure
  bind := bind

/-- A result or an error without any question. -/
def ofExcept (result : Except Error α) : Plan α := .done result

/-- Writes an event down. -/
def event (event : Event) : Plan Unit := .ask (.record event) fun _ => pure ()

/-- Writes down the notes of a callback. -/
def notes : List Note → Plan Unit
  | [] => pure ()
  | note :: rest => .ask (.record (.note note)) fun _ => notes rest

/-- A callback that was made, with its notes and its result. -/
def called (call : Call) (answer : Noted α) : Plan α := do
  event (.call call)
  notes answer.notes
  return answer.value

/-- Announces a field. -/
def field (path kind : String) : Plan Unit := .ask (.field path kind) fun _ => pure ()

/-- Waits for so many bytes and consumes them at once. -/
def fetch (count : Nat) : Plan (List UInt8) := .ask (.fetch count) fun reply => .done reply

/-- Consumes so many bytes, one chunk of the stream after the other. -/
def read (count : Nat) : Plan (List UInt8) := .ask (.read count) fun reply => .done reply

/-- Opens a file. -/
def openFile (path : String) : Plan Unit := .ask (.openFile path) fun reply => .done reply

/-- Closes the open file. -/
def closeFile (path : String) : Plan Unit := .ask (.closeFile path) fun _ => pure ()

/-- The results of `count` plans, listed. -/
def collect (count : Nat) (item : Nat → Plan α) : Plan (List α) :=
  Dialogue.collect item count 0 []

/-- What a decoder asks, asked of the open stream. -/
def ofDecoder : (question : DecoderQuestion) → Dialogue Question.Reply question.Reply
  | .note note => .ask (.record (.note note)) .done
  | .await count => .ask (.await count) .done
  | .fetch count => .ask (.fetch count) .done
  | .read count => .ask (.read count) .done
  | .position => .ask .position .done

/-- Lets a decoder read the field at a path. -/
def decode (path : String) (decoding : Decoding α) : Plan α :=
  (Dialogue.interpret ofDecoder decoding).map fun
    | .ok a => .ok a
    | .error fault => .error (fault.atField path)

end Plan

end ByteLayout.Read
