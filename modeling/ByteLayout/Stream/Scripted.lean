import ByteLayout.Fields
import ByteLayout.Stream.Sink
import ByteLayout.Stream.Source

/-!
# Scripted sinks and sources

Sinks and sources whose limits and failures are given by a few numbers. They stand in for devices:
slow ones that take or give little at once, full ones that accept nothing any more, and broken ones
that fail after so many bytes or when they are opened, flushed or shut down.

A write that crosses the mark at which a sink fails or is full is cut there; only the next one meets
the mark.
-/

namespace ByteLayout

/-- The limits and failures of a sink. -/
structure SinkPlan where
  /-- The most bytes accepted by one write. -/
  most : Option Nat := none
  /-- Writes fail once so many bytes were accepted. -/
  failure : Option (Nat × IoError) := none
  /-- Writes accept nothing once so many bytes were accepted. -/
  full : Option Nat := none
  flushError : Option IoError := none
  shutdownError : Option IoError := none
  openError : Option IoError := none

namespace SinkPlan

/-- The number of bytes accepted of a write, with a mark that it does not cross. -/
def cutAt (mark : Option Nat) (before bytes : Nat) : Nat :=
  match mark with
  | some mark => min bytes (mark - before)
  | none => bytes

/-- The answer to a write. -/
def write (plan : SinkPlan) (before offered : Nat) : WriteReply :=
  let bytes := min offered (plan.most.getD offered)
  let bytes := cutAt (plan.failure.map Prod.fst) before bytes
  let bytes := cutAt plan.full before bytes
  match plan.failure with
  | some (mark, error) => if mark ≤ before then .failed error else .accepted bytes
  | none => .accepted bytes

/-- The behaviour of a sink under a plan. -/
def behaviour (plan : SinkPlan) : SinkBehaviour where
  write := plan.write
  flushError := plan.flushError
  shutdownError := plan.shutdownError

/-- Opens a sink under a plan. -/
def opened (plan : SinkPlan) (path : String) : Except Error SinkBehaviour :=
  match plan.openError with
  | some error => .error (.io path error)
  | none => .ok plan.behaviour

end SinkPlan

/-- The limits and failures of a source. -/
structure SourcePlan where
  /-- The most bytes given by one read. -/
  most : Option Nat := none
  /-- The source ends after so many bytes. -/
  cut : Option Nat := none
  /-- Reads fail once so many bytes were given. -/
  failure : Option (Nat × IoError) := none
  openError : Option IoError := none

namespace SourcePlan

/-- The behaviour of a source of some bytes under a plan. A failure behind the end is never met. -/
def behaviour (plan : SourcePlan) (data : List UInt8) : SourceBehaviour :=
  let data := data.take (plan.cut.getD data.length)
  let portion (_ asked : Nat) : Nat := plan.most.getD asked
  match plan.failure with
  | some (mark, error) =>
    if mark ≤ data.length then { data := data.take mark, failure := some error, portion }
    else { data, portion }
  | none => { data, portion }

/-- The failure of a path that names nothing. -/
def noSuchFile : IoError := ⟨"NotFound", "no such file"⟩

/-- Opens the file at a path under a plan. -/
def opened (plan : SourcePlan) (files : Fields (List UInt8)) (path : String) :
    Except Error SourceBehaviour :=
  match plan.openError, Fields.get? files path with
  | some error, _ => .error (.io path error)
  | none, none => .error (.io path noSuchFile)
  | none, some data => .ok (plan.behaviour data)

end SourcePlan

/-! ## Pipes -/

/-- The failure of opening an end of a pipe twice. -/
def pipeTaken : IoError := ⟨"Other", "pipe end already taken"⟩

/-- Opens an end of a pipe, which can be done once. -/
def openPipeEnd {Behaviour : Type} (behaviour : Behaviour) (before : List String) (path : String) :
    Except Error Behaviour :=
  match before with
  | [] => .ok behaviour
  | _ :: _ => .error (.io path pipeTaken)

end ByteLayout
