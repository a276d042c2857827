import ByteLayout.Options
import ByteLayout.Write.Stage
import ByteLayout.Write.Walk

/-!
# Write passes

A pass writes the files of a layout from a provider. A layout without file nodes is written into the
one file that the options name; otherwise the options name the base directory. The result is the
record that was kept, which is what a read pass of the same files gives.
-/

namespace ByteLayout

open Write

/-- The script of a write pass. -/
def Schema.writeScript (schema : Schema) (provider : Provider) (options : Options) :
    Script (Fields Value) :=
  let pass : Pass := { user := options.user, nest := 1 < schema.fileCount }
  if schema.fileCount = 0 then do
    let (dir, name) ← .ofExcept (splitTarget options.path)
    .event (.trace (.singleFile .write options.path))
    pass.inFile name (.base dir) [] fun scope record =>
      pass.walkAll schema.rootSite scope (fun _ => .within provider) 0 record [schema.root]
  else do
    let (_, record) ←
      pass.walk schema.rootSite (.base options.path) (.within provider) [] schema.root
    return record

/-- Writes the files of a layout. -/
def Schema.write (schema : Schema) (provider : Provider) (options : Options)
    (opener : SinkOpener) : Report (Fields Value) :=
  let effective := options.clamped
  (schema.writeScript provider options).play
    { opener, capacity := effective.bufferSize, debug := options.debug } (options.warnings .write)

end ByteLayout
