import ByteLayout.Read.Plan
import ByteLayout.Stream.Read

/-!
# Answering a plan

The questions of a plan are answered one by one, by the open stream if they concern one. Without an
open stream there is nothing to read, and every such question gets an error; no plan of a checked
layout asks one.

How files are opened is a function of the path and of the paths opened before in the same pass.
-/

namespace ByteLayout.Read

/-- Opens the source of a file, given the paths opened before and its own. -/
abbrev SourceOpener : Type := List String → String → Except Error SourceBehaviour

/-- What a plan is answered with. -/
structure Setup where
  opener : SourceOpener
  chunk : Nat
  debug : Bool

/-- How far a plan has come: the journal, the streams that are done with, and the one that is
open. -/
structure Stage where
  journal : Journal
  streams : Array ReadStream
  current : Option ReadStream

namespace Stage

/-- Before the first question. -/
def empty : Stage := ⟨#[], #[], none⟩

/-- The paths of the files opened so far. -/
def openedPaths (stage : Stage) : List String := stage.streams.toList.map ReadStream.path

/-- Writes events down. -/
def log (stage : Stage) (events : List Event) : Stage :=
  { stage with journal := stage.journal ++ events }

/-- The number of bytes consumed of the open stream. -/
def offset (stage : Stage) : Nat := (stage.current.map ReadStream.position).getD 0

/-- Does something with the open stream. -/
def onStream {α : Type} (stage : Stage) (operation : ReadStream → Outcome ReadStream α) :
    Except Error α × Stage :=
  let { journal, streams, current } := stage
  match current with
  | none => (.error (.poisoned ""), ⟨journal, streams, none⟩)
  | some stream =>
    let outcome := operation stream
    (outcome.result, ⟨journal ++ outcome.events, streams, some outcome.stream⟩)

/-- Closes the open stream and puts it away. -/
def closeStream (stage : Stage) (path : String) : Stage :=
  match stage.current with
  | none => stage
  | some stream =>
    let closed := stream.close
    let journal := stage.journal.push (.trace (.fileRead path stream.position))
    ⟨journal ++ closed.events, stage.streams.push closed.stream, none⟩

/-- Opens a file. -/
def openStream (setup : Setup) (stage : Stage) (path : String) : Except Error Unit × Stage :=
  match setup.opener stage.openedPaths path with
  | .error error => (.error error, stage)
  | .ok behaviour =>
    let stage := stage.log [.opened path, .trace (.readReady path setup.chunk)]
    (.ok (), { stage with current := some (.create behaviour setup.chunk path) })

/-- Answers one question. -/
def answer (setup : Setup) (stage : Stage) : (question : Question) → question.Reply × Stage
  | .record event => ((), stage.log [event])
  | .field path kind =>
    ((), stage.log [.trace (.field .read setup.debug path kind stage.offset)])
  | .openFile path => stage.openStream setup path
  | .closeFile path => ((), stage.closeStream path)
  | .await count => stage.onStream fun stream => stream.await count
  | .fetch count => stage.onStream fun stream => stream.fetch count
  | .read count => stage.onStream fun stream => stream.readBytes count
  | .position => (stage.offset, stage)

/-- Answers questions up to the result. -/
def answerAll {α : Type} (setup : Setup) (stage : Stage) :
    Dialogue Question.Reply α → α × Stage
  | .done result => (result, stage)
  | .ask question next =>
    match stage.answer setup question with
    | (reply, stage) => answerAll setup stage (next reply)

/-- Aborts what is open and puts it away. -/
def abandon (stage : Stage) : Stage :=
  match stage.current with
  | none => stage
  | some stream => ⟨stage.journal, stage.streams.push stream.abort, none⟩

end Stage

/-- What comes of a read pass: its result, the journal, and the stream of every file that was
opened, in order. -/
structure Report (α : Type) where
  result : Except Error α
  journal : Journal
  streams : Array ReadStream

/-- Answers a whole plan, after some events. -/
def Plan.answer {α : Type} (plan : Plan α) (setup : Setup) (before : List Event) : Report α :=
  let (result, stage) := (Stage.empty.log before).answerAll setup plan
  let stage := stage.abandon
  ⟨result, stage.journal, stage.streams⟩

end ByteLayout.Read
