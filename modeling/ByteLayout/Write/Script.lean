import ByteLayout.Dialogue
import ByteLayout.Journal

/-!
# Scripts

What a write pass does depends on the layout, the provider and the options, and not on what becomes
of the bytes: no callback learns anything of a sink. So the pass is a **script**: steps that are
taken one after the other, and then a result or the error that ends them. The buffer, the sinks and
their failures come in only when the script is played (`Write.Stage`), which may stop it at any step
and changes nothing else.

`Script.steps` lists the steps and `Script.outcome` is the end that a script has if nothing stops
it. **Theorem** (`steps_bind`): the steps of a script that goes on are its own, followed, if it ends
well, by those of what it goes on with.
-/

namespace ByteLayout.Write

/-- One step of a write pass. -/
inductive Step where
  /-- Something to be written down. -/
  | record (event : Event)
  /-- A sink is opened. -/
  | openFile (path : String)
  /-- A field begins at the current offset. -/
  | field (path kind : String)
  /-- The bytes of a scalar, which are not split between two flushes. -/
  | scalar (bytes : List UInt8)
  /-- Bytes of any number. -/
  | payload (bytes : List UInt8)
  /-- The sink is finished. -/
  | closeFile (path : String)

/-- Steps, and how they end. A step is not replied to. -/
def Script (α : Type) : Type := Dialogue (fun _ : Step => Unit) (Except Error α)

namespace Script

variable {α β : Type}

/-- No step and a result. -/
def pure (a : α) : Script α := .done (.ok a)

/-- No step and an error. -/
def fail (error : Error) : Script α := .done (.error error)

/-- Goes on after a result; an error ends the script. -/
def bind (script : Script α) (f : α → Script β) : Script β := Dialogue.andThen script f

instance : Monad Script where
  pure := pure
  bind := bind

/-- Takes one step. -/
def step (step : Step) : Script Unit := .ask step fun _ => pure ()

/-- Writes an event down. -/
def event (event : Event) : Script Unit := step (.record event)

/-- Writes down the notes of a callback. -/
def notes : List Note → Script Unit
  | [] => pure ()
  | note :: rest => .ask (.record (.note note)) fun _ => notes rest

/-- A callback that was made, with its notes and its result. -/
def called (call : Call) (answer : Noted α) : Script α := do
  event (.call call)
  notes answer.notes
  return answer.value

/-- A result or an error without any step. -/
def ofExcept (result : Except Error α) : Script α := .done result

/-- A result, or the error of a refused value at a path. -/
def ofCheck (path : String) : Except Reason α → Script α
  | .ok a => pure a
  | .error reason => fail (.invalidValue path reason)

/-- The results of `count` scripts, listed. -/
def collect (count : Nat) (item : Nat → Script α) : Script (List α) :=
  Dialogue.collect item count 0 []

/-! ## Steps and outcome -/

/-- The steps of a script that nothing stops. -/
def steps : Script α → List Step
  | .done _ => []
  | .ask step next => step :: steps (next ())

/-- How a script ends that nothing stops. -/
def outcome : Script α → Except Error α
  | .done result => result
  | .ask _ next => outcome (next ())

theorem outcome_bind (script : Script α) (f : α → Script β) :
    (script.bind f).outcome = script.outcome.bind fun a => (f a).outcome := by
  induction script with
  | done result => cases result <;> rfl
  | ask step next ih => exact ih ()

theorem steps_bind (script : Script α) (f : α → Script β) :
    (script.bind f).steps = script.steps ++
      match script.outcome with
      | .ok a => (f a).steps
      | .error _ => [] := by
  induction script with
  | done result => cases result <;> rfl
  | ask step next ih => exact congrArg (step :: ·) (ih ())

end Script

end ByteLayout.Write
