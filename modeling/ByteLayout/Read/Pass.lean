import ByteLayout.Options
import ByteLayout.Read.Stage
import ByteLayout.Read.Walk

/-!
# Read passes

A pass reads the files of a layout into a record. A layout without file nodes is read from the one
file that the options name; otherwise the options name the base directory. If the layout has more
than one file, the record of each is an entry under the path of its node.
-/

namespace ByteLayout

open Read

/-- The plan of a read pass. -/
def Schema.readPlan (schema : Schema) (transform : Option Transform) (options : Options) :
    Plan (Fields Value) :=
  let pass : Pass := { user := options.user, nest := 1 < schema.fileCount }
  if schema.fileCount = 0 then do
    let (dir, name) ← .ofExcept (splitTarget options.path)
    .event (.trace (.singleFile .read options.path))
    pass.inFile name (.base dir) [] fun scope record =>
      pass.walkAll schema.rootSite scope transform record [schema.root]
  else do
    let (_, record) ← pass.walk schema.rootSite (.base options.path) transform [] schema.root
    return record

/-- Reads the files of a layout. -/
def Schema.read (schema : Schema) (transform : Option Transform) (options : Options)
    (opener : SourceOpener) : Report (Fields Value) :=
  let effective := options.clamped
  (schema.readPlan transform options).answer
    { opener, chunk := effective.bufferSize, debug := options.debug } (options.warnings .read)

end ByteLayout
