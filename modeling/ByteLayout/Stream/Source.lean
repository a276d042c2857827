import ByteLayout.Error

/-!
# Sources

A source hands out a byte string in portions, and after its last byte it either ends or fails. How
it splits the bytes is a function of the number of bytes handed out before and of the number asked
for. A portion of no byte is how a source says that it has ended, so one handed out too early ends
it early.
-/

namespace ByteLayout

/-- How a source behaves. -/
structure SourceBehaviour where
  data : List UInt8
  /-- What comes after the last byte: an error, or the end. -/
  failure : Option IoError := none
  /-- The size of the next portion, given the number of bytes handed out before and of those asked
  for; never more than asked for. -/
  portion : Nat → Nat → Nat := fun _ asked => asked

/-- A source that hands out some bytes as they are asked for, and ends. -/
def SourceBehaviour.ofBytes (data : List UInt8) : SourceBehaviour := { data }

/-- One read from a source that succeeded. -/
structure SourceRead where
  asked : Nat
  given : Nat
  deriving DecidableEq, Repr

/-- A source with what is left of it. -/
structure Source where
  behaviour : SourceBehaviour
  /-- The bytes not yet handed out. -/
  rest : List UInt8
  /-- The number of bytes handed out. -/
  given : Nat := 0
  /-- The reads that succeeded, in order. -/
  reads : Array SourceRead := #[]

namespace Source

/-- A source of which nothing was read. -/
def ofBehaviour (behaviour : SourceBehaviour) : Source := { behaviour, rest := behaviour.data }

/-- Asks for bytes; no byte means the end. -/
def read (source : Source) (asked : Nat) : Source × Except IoError (List UInt8) :=
  let { behaviour, rest, given, reads } := source
  match rest.isEmpty, behaviour.failure with
  | true, some error => (⟨behaviour, rest, given, reads⟩, .error error)
  | _, _ =>
    let portion := rest.take (min asked (behaviour.portion given asked))
    ({ behaviour
       rest := rest.drop portion.length
       given := given + portion.length
       reads := reads.push ⟨asked, portion.length⟩ },
      .ok portion)

end Source

end ByteLayout
