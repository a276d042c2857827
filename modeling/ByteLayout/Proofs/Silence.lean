import ByteLayout.Proofs.Journal
import ByteLayout.Proofs.Steps
import ByteLayout.Write.Field

/-!
# What is written before anything is written

Before a field is announced, its value is looked up: an entry may be computed, a lazy sequence
generated, an item pulled. All of that only writes events down, and none of these events is a field
or the choice of a node. Such a script is **silent**.
-/

namespace ByteLayout.Write

namespace Script

variable {α β : Type}

/-- Whether a script only writes events down, no field and no choice of a node among them. -/
def Silent (script : Script α) : Prop :=
  ∀ step ∈ script.steps, ∃ event, step = .record event ∧ event.Unseen

theorem silent_of_no_steps {script : Script α} (h : script.steps = []) : Silent script := by
  intro step hstep
  rw [h] at hstep
  cases hstep

theorem Silent.bind {script : Script α} {f : α → Script β} (h : Silent script)
    (hf : ∀ a, script.outcome = .ok a → Silent (f a)) : Silent (script >>= f) := by
  intro step hstep
  rcases mem_steps_bind.mp hstep with hstep | ⟨a, ha, hstep⟩
  · exact h step hstep
  · exact hf a ha step hstep

theorem silent_event {event : Event} (h : event.Unseen) : Silent (Script.event event) := by
  intro step hstep
  rcases List.mem_singleton.mp hstep with rfl
  exact ⟨event, rfl, h⟩

theorem silent_notes (list : List Note) : Silent (notes list) := by
  intro step hstep
  rw [steps_notes] at hstep
  obtain ⟨note, -, rfl⟩ := List.mem_map.mp hstep
  exact ⟨.note note, rfl, rfl, rfl⟩

theorem silent_called {call : Call} (h : (Event.call call).Unseen) (answer : Noted α) :
    Silent (called call answer) :=
  (silent_event h).bind fun _ _ => (silent_notes answer.notes).bind fun _ _ =>
    silent_of_no_steps rfl

theorem nextAll_silent {inFile : Bool} {steps : List Step}
    (h : ∀ step ∈ steps, ∃ event, step = .record event ∧ event.Unseen) :
    Step.nextAll inFile steps = some inFile := by
  induction steps with
  | nil => rfl
  | cons step rest ih =>
    obtain ⟨event, rfl, -⟩ := h step List.mem_cons_self
    exact ih fun step hstep => h step (List.mem_cons_of_mem _ hstep)

theorem Silent.orderly {inFile : Bool} {script : Script α} (h : Silent script) :
    Orderly inFile inFile script :=
  ⟨inFile, nextAll_silent h, fun _ _ => rfl⟩

end Script

namespace Pass

open Script

variable (pass : Pass) (name : Option String) (default : Option Value) (scope : Scope)
  (input : Input) (record : Fields Value)

theorem silent_compute (provider : Provider) : Silent (pass.compute scope record provider) := by
  cases provider with
  | computed f => exact silent_called ⟨rfl, rfl⟩ _
  | _ => exact silent_of_no_steps rfl

theorem silent_provided : Silent (pass.provided name scope input record) := by
  unfold provided
  split
  · exact silent_of_no_steps rfl
  · exact (pass.silent_compute scope record _).bind fun _ _ => silent_of_no_steps rfl

theorem silent_literal : Silent (pass.literal name scope input record) :=
  (pass.silent_provided name scope input record).bind fun _ _ => silent_of_no_steps rfl

theorem silent_resolve (kind : String) :
    Silent (pass.resolve kind name default scope input record) := by
  refine (pass.silent_literal name scope input record).bind fun given _ => ?_
  split
  · exact silent_of_no_steps rfl
  · exact (silent_event ⟨rfl, rfl⟩).bind fun _ _ => silent_of_no_steps rfl

theorem silent_supplier : Silent (pass.supplier name default scope input record) := by
  refine (pass.silent_provided name scope input record).bind fun provider _ => ?_
  split <;> exact silent_of_no_steps rfl

theorem silent_supply (provider : Provider) : Silent (pass.supply scope record provider) := by
  cases provider with
  | lazy generate =>
    exact (silent_called ⟨rfl, rfl⟩ _).bind fun _ _ => (silent_event ⟨rfl, rfl⟩).bind fun _ _ =>
      silent_of_no_steps rfl
  | _ => exact silent_of_no_steps rfl

theorem silent_pull (supply : Supply) (index : Nat) : Silent (pass.pull scope supply index) := by
  unfold pull
  split
  · exact (silent_event ⟨rfl, rfl⟩).bind fun _ _ => (silent_notes _).bind fun _ _ =>
      pass.silent_compute _ _ _
  · exact pass.silent_compute _ _ _

end Pass

end ByteLayout.Write
