import ByteLayout.FileTree
import ByteLayout.Read.Pass
import ByteLayout.Stream.Scripted
import ByteLayout.Write.Pass

/-!
# Storage

Where passes leave their files for later passes to find: a map from paths to bytes, whose sinks and
sources may be scripted, or a file tree. What a sink accepted is stored even if its pass fails.

A pipe joins a write pass to a read pass directly: the reader finds what the writer's one sink
accepted.
-/

namespace ByteLayout

/-- The files that passes leave behind. -/
inductive Storage where
  /-- Bytes by the text of the path. -/
  | memory (files : Fields (List UInt8))
  | tree (tree : FileTree)

/-- A plan by path; the entry `*` is for all other paths. -/
def planFor {Plan : Type} (plans : Fields Plan) (none : Plan) (path : String) : Plan :=
  match Fields.get? plans path, Fields.get? plans "*" with
  | some plan, _ => plan
  | .none, some plan => plan
  | .none, .none => none

/-- The bytes that the sinks of a write pass accepted, by path. -/
def Write.Report.contents {α : Type} (report : Write.Report α) :
    List (String × List UInt8) :=
  report.streams.toList.map fun stream => (stream.path, stream.sink.data.toList)

namespace Storage

/-- Storage in memory with some files. -/
def ofFiles (files : List (String × List UInt8)) : Storage := memory (Fields.ofList files)

/-- A file tree with some files. -/
def ofTree (files : List (String × List UInt8)) : Storage :=
  tree (FileTree.empty.written (files.map Prod.fst) files)

/-- Runs a write pass and stores its files. -/
def write (storage : Storage) (schema : Schema) (provider : Provider) (options : Options)
    (plans : Fields SinkPlan) : Write.Report (Fields Value) × Storage :=
  match storage with
  | memory files =>
    let report := schema.write provider options fun _ path => (planFor plans {} path).opened path
    (report, memory
      (report.contents.foldl (fun files file => Fields.insert files file.1 file.2) files))
  | tree files =>
    let report := schema.write provider options files.createAfter
    (report, tree (files.written report.journal.attempts report.contents))

/-- Runs a read pass. -/
def read (storage : Storage) (schema : Schema) (transform : Option Transform) (options : Options)
    (plans : Fields SourcePlan) : Read.Report (Fields Value) :=
  match storage with
  | memory files =>
    schema.read transform options fun _ path => (planFor plans {} path).opened files path
  | tree files => schema.read transform options fun _ path => files.read path

end Storage

/-- Runs a write pass into a pipe and a read pass out of it. -/
def Schema.pipe (schema : Schema) (provider : Provider) (transform : Option Transform)
    (writing reading : Options) :
    Write.Report (Fields Value) × Read.Report (Fields Value) :=
  let written := schema.write provider writing (openPipeEnd .faultless)
  let bytes := (written.contents.map Prod.snd).flatten
  (written, schema.read transform reading (openPipeEnd (.ofBytes bytes)))

end ByteLayout
