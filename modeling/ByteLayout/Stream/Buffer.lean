/-!
# Write buffers

A buffer of fixed capacity is filled from its beginning and emptied as a whole. Emptying it only
moves the cursor back: the bytes stay where they are until they are overwritten, and a window handed
out may show them. So a buffer is the bytes before its cursor together with the **stale** ones after
it; where nothing was ever written there are zeros, which are not stored.
-/

namespace ByteLayout

/-- A buffer that is never larger than its capacity, which is at least one byte. -/
structure Buffer where
  capacity : Nat
  filled : Array UInt8
  stale : List UInt8
  capacity_pos : 0 < capacity
  size_le : filled.size ≤ capacity

namespace Buffer

/-- An empty buffer; a capacity of zero is raised to one. -/
def ofCapacity (capacity : Nat) : Buffer where
  capacity := max capacity 1
  filled := #[]
  stale := []
  capacity_pos := by omega
  size_le := by simp

/-- The number of bytes before the cursor. -/
def size (buffer : Buffer) : Nat := buffer.filled.size

/-- The number of bytes that fit behind the cursor. -/
def room (buffer : Buffer) : Nat := buffer.capacity - buffer.size

/-- The bytes before the cursor. -/
def bytes (buffer : Buffer) : List UInt8 := buffer.filled.toList

def isEmpty (buffer : Buffer) : Bool := buffer.size == 0

def isFull (buffer : Buffer) : Bool := buffer.size == buffer.capacity

/-- The buffer with the cursor at its beginning. -/
def clear (buffer : Buffer) : Buffer :=
  { buffer with
    filled := #[]
    stale := buffer.filled.toList ++ buffer.stale
    size_le := by simp }

/-- The next `count` bytes behind the cursor, as they are. -/
def window (buffer : Buffer) (count : Nat) : List UInt8 :=
  let known := buffer.stale.take count
  known ++ List.replicate (count - known.length) 0

/-- Puts bytes behind the cursor, as many as fit. -/
def append (buffer : Buffer) (bytes : List UInt8) : Buffer :=
  { buffer with
    filled := buffer.filled ++ bytes.take buffer.room
    stale := buffer.stale.drop (bytes.take buffer.room).length
    size_le := by
      have := buffer.size_le
      simp only [← Array.length_toList, Array.toList_appendList, List.length_append,
        List.length_take, room, size]
      simp only [Array.length_toList]
      omega }

/-! ## The view -/

@[simp] theorem length_bytes (buffer : Buffer) : buffer.bytes.length = buffer.size := by
  simp [bytes, size]

@[simp] theorem bytes_ofCapacity (capacity : Nat) : (ofCapacity capacity).bytes = [] := rfl

@[simp] theorem bytes_clear (buffer : Buffer) : buffer.clear.bytes = [] := rfl

@[simp] theorem bytes_append (buffer : Buffer) (bytes : List UInt8) :
    (buffer.append bytes).bytes = buffer.bytes ++ bytes.take buffer.room := by
  simp [append, Buffer.bytes]

@[simp] theorem capacity_clear (buffer : Buffer) : buffer.clear.capacity = buffer.capacity := rfl

@[simp] theorem capacity_append (buffer : Buffer) (bytes : List UInt8) :
    (buffer.append bytes).capacity = buffer.capacity := rfl

/-- A window has the size that was asked for. -/
@[simp] theorem length_window (buffer : Buffer) (count : Nat) :
    (buffer.window count).length = count := by
  simp only [window, List.length_append, List.length_take, List.length_replicate]
  omega

end Buffer

end ByteLayout
