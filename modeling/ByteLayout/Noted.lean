import ByteLayout.Value

/-!
# Notes of callbacks

A callback is a function, so all that it can do besides giving a result is to leave notes. They end
up in the journal of the pass, in the order in which the callbacks ran.
-/

namespace ByteLayout

/-- A remark that a callback leaves in the journal of the pass. -/
structure Note where
  tag : String
  value : Value

/-- A result together with the notes left on the way to it, in order. -/
structure Noted (α : Type) where
  value : α
  notes : List Note := []

namespace Noted

variable {α β : Type}

def map (f : α → β) (x : Noted α) : Noted β := ⟨f x.value, x.notes⟩

def bind (x : Noted α) (f : α → Noted β) : Noted β :=
  let y := f x.value
  ⟨y.value, x.notes ++ y.notes⟩

instance : Monad Noted where
  pure a := ⟨a, []⟩
  bind := bind
  map f x := x.map f

/-- Leaves one note. -/
def leave (tag : String) (value : Value) : Noted Unit := ⟨(), [⟨tag, value⟩]⟩

end Noted

end ByteLayout
