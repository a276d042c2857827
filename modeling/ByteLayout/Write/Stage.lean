import ByteLayout.Stream.Write
import ByteLayout.Write.Script

/-!
# Playing a script

A script is played step by step. There is at most one open stream; a step that fails ends the play,
and whatever is open then is aborted. Nothing of the script but how far it is played depends on the
sinks.

How files are opened is a function of the path and of the paths opened before in the same pass.
-/

namespace ByteLayout.Write

/-- Opens the sink of a file, given the paths opened before and its own. -/
abbrev SinkOpener : Type := List String → String → Except Error SinkBehaviour

/-- What a script is played with. -/
structure Setup where
  opener : SinkOpener
  capacity : Nat
  debug : Bool

/-- How far a script has been played: the journal, the streams that are done with, and the one that
is open. -/
structure Stage where
  journal : Journal
  streams : Array WriteStream
  current : Option WriteStream

namespace Stage

/-- Before the first step. -/
def empty : Stage := ⟨#[], #[], none⟩

/-- The paths of the files opened so far. -/
def openedPaths (stage : Stage) : List String := stage.streams.toList.map WriteStream.path

/-- Writes events down. -/
def log (stage : Stage) (events : List Event) : Stage :=
  { stage with journal := stage.journal ++ events }

/-- The number of bytes that the open stream has accepted. -/
def offset (stage : Stage) : Nat := (stage.current.map WriteStream.position).getD 0

/-- Does something with the open stream. -/
def onStream {α : Type} (stage : Stage) (operation : WriteStream → Outcome WriteStream α) :
    Stage × Option Error :=
  let { journal, streams, current } := stage
  match current with
  | none => (⟨journal, streams, none⟩, none)
  | some stream =>
    let outcome := operation stream
    let stage : Stage := ⟨journal ++ outcome.events, streams, some outcome.stream⟩
    match outcome.result with
    | .ok _ => (stage, none)
    | .error error => (stage, some error)

/-- Finishes the open stream and puts it away. -/
def closeStream (stage : Stage) (path : String) : Stage × Option Error :=
  match stage.current with
  | none => (stage, none)
  | some stream =>
    let outcome := stream.finish
    let journal := stage.journal ++ outcome.events
    match outcome.result with
    | .ok bytes =>
      (⟨journal.push (.trace (.fileWritten path bytes)), stage.streams.push outcome.stream, none⟩,
        none)
    | .error error => (⟨journal, stage.streams, some outcome.stream⟩, some error)

/-- Takes one step. -/
def play (setup : Setup) (stage : Stage) : Step → Stage × Option Error
  | .record event => (stage.log [event], none)
  | .openFile path =>
    match setup.opener stage.openedPaths path with
    | .error error => (stage, some error)
    | .ok behaviour =>
      let stage := stage.log [.opened path, .trace (.writeReady path setup.capacity)]
      ({ stage with current := some (.create behaviour setup.capacity path) }, none)
  | .field path kind =>
    (stage.log [.trace (.field .write setup.debug path kind stage.offset)], none)
  | .scalar bytes => stage.onStream fun stream => stream.put bytes
  | .payload bytes => stage.onStream fun stream => stream.copy bytes
  | .closeFile path => stage.closeStream path

/-- Takes the steps of a script up to the first that fails. -/
def playAll {α : Type} (setup : Setup) (stage : Stage) : Script α → Stage × Except Error α
  | .done result => (stage, result)
  | .ask step next =>
    match stage.play setup step with
    | (stage, none) => playAll setup stage (next ())
    | (stage, some error) => (stage, .error error)

/-- Aborts what is open and puts it away. -/
def abandon (stage : Stage) : Stage :=
  match stage.current with
  | none => stage
  | some stream => ⟨stage.journal, stage.streams.push stream.abort, none⟩

end Stage

/-- What comes of a write pass: its result, the journal, and the stream of every file that was
opened, in order. -/
structure Report (α : Type) where
  result : Except Error α
  journal : Journal
  streams : Array WriteStream

/-- Plays a whole script, after some events. -/
def Script.play {α : Type} (script : Script α) (setup : Setup) (before : List Event) : Report α :=
  let (stage, result) := (Stage.empty.log before).playAll setup script
  let stage := stage.abandon
  ⟨result, stage.journal, stage.streams⟩

end ByteLayout.Write
