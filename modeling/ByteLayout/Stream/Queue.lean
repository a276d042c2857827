/-!
# Byte queues

A queue of bytes that is filled by runs at its end and emptied by runs at its front. The newest
bytes are kept in reverse, so that filling costs no more than the run; the view is `toList`.
-/

namespace ByteLayout

/-- A queue of bytes: first those in `front`, then those in `back`, the last of them first. -/
structure ByteQueue where
  front : List UInt8
  back : List UInt8
  size : Nat
  size_eq : size = front.length + back.length

namespace ByteQueue

/-- The queue without bytes. -/
def empty : ByteQueue := ⟨[], [], 0, rfl⟩

/-- The bytes, in the order in which they leave. -/
def toList (queue : ByteQueue) : List UInt8 := queue.front ++ queue.back.reverse

/-- Adds bytes at the end. -/
def push (queue : ByteQueue) (bytes : List UInt8) : ByteQueue where
  front := queue.front
  back := bytes.reverse ++ queue.back
  size := queue.size + bytes.length
  size_eq := by simp [queue.size_eq]; omega

/-- Moves all bytes to the front. -/
def settle (queue : ByteQueue) : ByteQueue where
  front := queue.toList
  back := []
  size := queue.size
  size_eq := by simp [queue.size_eq, toList]

/-- A queue with the same bytes, all of them in front. -/
def settled (queue : ByteQueue) : ByteQueue := if queue.back.isEmpty then queue else queue.settle

/-- Takes `count` bytes from the front, or all if there are fewer. -/
def pop (queue : ByteQueue) (count : Nat) : List UInt8 × ByteQueue :=
  let front := queue.settled.front
  (front.take count,
    { front := front.drop count
      back := []
      size := queue.size - count
      size_eq := by
        simp only [front, settled]
        split
        · next h => simp [queue.size_eq, List.isEmpty_iff.mp h]
        · simp [settle, toList, queue.size_eq] })

/-! ## The view -/

@[simp] theorem toList_empty : empty.toList = [] := rfl

@[simp] theorem length_toList (queue : ByteQueue) : queue.toList.length = queue.size := by
  simp [toList, queue.size_eq]

@[simp] theorem toList_push (queue : ByteQueue) (bytes : List UInt8) :
    (queue.push bytes).toList = queue.toList ++ bytes := by
  simp [toList, push]

@[simp] theorem toList_settle (queue : ByteQueue) : queue.settle.toList = queue.toList := by
  simp [toList, settle]

theorem settled_front (queue : ByteQueue) : queue.settled.front = queue.toList := by
  simp only [settled]
  split
  · next h => simp [toList, List.isEmpty_iff.mp h]
  · rfl

@[simp] theorem pop_fst (queue : ByteQueue) (count : Nat) :
    (queue.pop count).1 = queue.toList.take count := by
  simp [pop, settled_front]

@[simp] theorem toList_pop_snd (queue : ByteQueue) (count : Nat) :
    (queue.pop count).2.toList = queue.toList.drop count := by
  simp [pop, toList, settled_front]

end ByteQueue

end ByteLayout
