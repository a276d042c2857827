import ByteLayout.Scope

/-!
# The journal of a pass

Everything that a pass does and that can be told from outside is an event, and its journal lists the
events in order: the callbacks it made and the notes they left, the values it found for its fields,
the items it pulled from lazy sequences or read, what it did to its sinks, and **traces**, which are
what a log shows.

A trace has a level, a message and named fields. The traces of single fields are of level debug if
the pass was asked for that, and of level trace otherwise, like most others.
-/

namespace ByteLayout

/-- The two directions of a pass. -/
inductive Side where
  | write
  | read
  deriving DecidableEq, Repr

def Side.name : Side → String
  | write => "write"
  | read => "read"

/-- How important a trace is. -/
inductive Level where
  | trace
  | debug
  | warn
  deriving DecidableEq, Repr

namespace Level

def rank : Level → Nat
  | trace => 0
  | debug => 1
  | warn => 2

def name : Level → String
  | trace => "TRACE"
  | debug => "DEBUG"
  | warn => "WARN"

end Level

/-- What a log shows of a pass. -/
inductive Trace where
  /-- The buffer asked for was too small. -/
  | bufferRaised (side : Side) (requested minimum : Nat)
  /-- The layout has no file node, so one file is made for all of it. -/
  | singleFile (side : Side) (target : String)
  | opening (path : String)
  | writeReady (path : String) (capacity : Nat)
  | readReady (path : String) (chunk : Nat)
  | field (side : Side) (debug : Bool) (path kind : String) (offset : Nat)
  | flushed (path : String) (bytes offset : Nat)
  | filled (path : String) (bytes resident : Nat)
  | sourceEnded (path : String) (offset : Nat)
  | writeClosed (path : String) (bytes : Nat)
  | fileWritten (path : String) (bytes : Nat)
  | fileRead (path : String) (bytes : Nat)
  | readClosed (path : String) (consumed : Nat)
  deriving DecidableEq, Repr

namespace Trace

def level : Trace → Level
  | bufferRaised .. => .warn
  | field _ true _ _ _ => .debug
  | _ => .trace

def message : Trace → String
  | bufferRaised side _ _ => side.name ++ " buffer size raised to the minimum"
  | singleFile .write _ => "no file node, writing a single file"
  | singleFile .read _ => "no file node, reading a single file"
  | opening _ => "opening file"
  | writeReady _ _ => "write stream ready"
  | readReady _ _ => "read stream ready"
  | field side _ _ _ _ => side.name ++ " field"
  | flushed _ _ _ => "flushed write buffer"
  | filled _ _ _ => "filled read buffer"
  | sourceEnded _ _ => "source ended"
  | writeClosed _ _ => "write stream closed"
  | fileWritten _ _ => "file written"
  | fileRead _ _ => "file read"
  | readClosed _ _ => "read stream closed"

/-- The fields of a trace with their names. -/
def fields : Trace → List (String × Value)
  | bufferRaised _ requested minimum =>
    [("requested", .int requested), ("minimum", .int minimum)]
  | singleFile _ target => [("path", .string target)]
  | opening path => [("path", .string path)]
  | writeReady path capacity => [("path", .string path), ("capacity", .int capacity)]
  | readReady path chunk => [("path", .string path), ("chunk", .int chunk)]
  | field _ _ path kind offset =>
    [("path", .string path), ("kind", .string kind), ("offset", .int offset)]
  | flushed path bytes offset =>
    [("path", .string path), ("bytes", .int bytes), ("offset", .int offset)]
  | filled path bytes resident =>
    [("path", .string path), ("bytes", .int bytes), ("resident", .int resident)]
  | sourceEnded path offset => [("path", .string path), ("offset", .int offset)]
  | writeClosed path bytes => [("path", .string path), ("bytes", .int bytes)]
  | fileWritten path bytes => [("path", .string path), ("bytes", .int bytes)]
  | fileRead path bytes => [("path", .string path), ("bytes", .int bytes)]
  | readClosed path consumed => [("path", .string path), ("consumed", .int consumed)]

end Trace

/-- A callback and what it was given. -/
inductive Call where
  | select (context : FieldContext)
  | compute (context : FieldContext)
  | generate (context : FieldContext)
  | transform (value : Value) (context : FieldContext)
  | encode (value : Value) (context : CodecContext)
  | decode (context : CodecContext)

/-- What happens to a sink after it was opened. -/
inductive SinkEvent where
  /-- So many bytes were handed over at once. -/
  | offered (bytes : Nat)
  | flushed (succeeded : Bool)
  | shutDown (succeeded : Bool)
  deriving DecidableEq, Repr

/-- One thing that a pass did. -/
inductive Event where
  | note (note : Note)
  | call (call : Call)
  /-- A value was found for the integer, float or text field at a path. -/
  | resolved (path kind : String) (value : Value)
  /-- The lazy sequence at a path declared a count and has so many items. -/
  | generated (path : String) (count : Value) (length : Nat)
  /-- An item was taken from the lazy sequence at a path. -/
  | pulled (path : String) (index : Nat)
  /-- An item of the sequence at a path was written or read to its end. -/
  | itemDone (path : String) (index : Nat)
  /-- A sink or a source was opened. -/
  | opened (path : String)
  | sink (path : String) (event : SinkEvent)
  | trace (trace : Trace)

/-- The events of a pass, in order. -/
abbrev Journal : Type := Array Event

namespace Journal

/-- The notes that callbacks left. -/
def notes (journal : Journal) : List Note :=
  journal.toList.filterMap fun
    | .note note => some note
    | _ => none

/-- The traces of at least the given level. -/
def traces (journal : Journal) (level : Level) : List Trace :=
  journal.toList.filterMap fun
    | .trace trace => if level.rank ≤ trace.level.rank then some trace else none
    | _ => none

/-- The paths of the files that were asked for, whether they could be opened or not. -/
def attempts (journal : Journal) : List String :=
  journal.toList.filterMap fun
    | .trace (.opening path) => some path
    | _ => none

end Journal

end ByteLayout
