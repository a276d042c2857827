import ByteLayout.Journal

/-!
# Options of a pass

The path is the base directory of a pass or, for a layout without file nodes, its one file. A buffer
that is too small is raised to the minimum, with a warning.
-/

namespace ByteLayout

/-- The options of a pass in either direction. -/
structure Options where
  /-- The base directory or, without file nodes, the file. -/
  path : String := "."
  /-- The size of the buffer of every file: of a write pass its capacity, of a read pass the most
  bytes asked of a source at once. -/
  bufferSize : Nat
  /-- Whether the traces of fields are of level debug. -/
  debug : Bool := false
  /-- The value shown to every callback. -/
  user : Value := .null

namespace Options

/-- The smallest buffer that a pass runs with. -/
def minBufferSize : Nat := 16

/-- The options of a write pass unless told otherwise. -/
def forWriting : Options := { bufferSize := 2048 }

/-- The options of a read pass unless told otherwise. -/
def forReading : Options := { bufferSize := 1024 }

/-- The options with a buffer of at least the minimum. -/
def clamped (options : Options) : Options :=
  { options with bufferSize := max options.bufferSize minBufferSize }

/-- The warning about a buffer below the minimum. -/
def warnings (options : Options) (side : Side) : List Event :=
  if options.bufferSize < minBufferSize then
    [.trace (.bufferRaised side options.bufferSize minBufferSize)]
  else []

end Options

end ByteLayout
