import ByteLayout.Write.Script

/-!
# Steps and outcomes of scripts

A script is known by its steps and its outcome. Every way of making a script has its equations here,
so that what a pass writes is computed from the scripts of its parts: the equations for single
scripts are simplification rules, and those for sequences of scripts (`outcome_bind_eq_ok`,
`steps_bind_of_ok`) are used by name.
-/

namespace ByteLayout.Write

namespace Script

variable {α β : Type}

/-! ## Scripts of one part -/

@[simp] theorem outcome_pure (a : α) : (Pure.pure a : Script α).outcome = .ok a := rfl

@[simp] theorem steps_pure (a : α) : (Pure.pure a : Script α).steps = [] := rfl

@[simp] theorem outcome_fail (error : Error) : (fail error : Script α).outcome = .error error := rfl

@[simp] theorem steps_fail (error : Error) : (fail error : Script α).steps = [] := rfl

@[simp] theorem outcome_step (s : Step) : (step s).outcome = .ok () := rfl

@[simp] theorem steps_step (s : Step) : (step s).steps = [s] := rfl

@[simp] theorem outcome_event (e : Event) : (event e).outcome = .ok () := rfl

@[simp] theorem steps_event (e : Event) : (event e).steps = [.record e] := rfl

@[simp] theorem outcome_ofExcept (result : Except Error α) :
    (ofExcept result).outcome = result := rfl

@[simp] theorem steps_ofExcept (result : Except Error α) : (ofExcept result).steps = [] := rfl

@[simp] theorem steps_ofCheck (path : String) (result : Except Reason α) :
    (ofCheck path result).steps = [] := by
  cases result <;> rfl

theorem outcome_ofCheck_eq_ok {path : String} {result : Except Reason α} {a : α} :
    (ofCheck path result).outcome = .ok a ↔ result = .ok a := by
  cases result with
  | ok b =>
    show Except.ok b = _ ↔ _
    simp only [Except.ok.injEq]
  | error reason =>
    show Except.error _ = _ ↔ _
    simp only [reduceCtorEq]

@[simp] theorem outcome_notes (list : List Note) : (notes list).outcome = .ok () := by
  induction list with
  | nil => rfl
  | cons note rest ih => exact ih

@[simp] theorem steps_notes (list : List Note) :
    (notes list).steps = list.map fun note => .record (.note note) := by
  induction list with
  | nil => rfl
  | cons note rest ih => exact congrArg (Step.record (.note note) :: ·) ih

/-! ## Scripts one after the other -/

theorem bind_eq (script : Script α) (f : α → Script β) : script >>= f = script.bind f := rfl

theorem outcome_bind_eq_ok {script : Script α} {f : α → Script β} {b : β} :
    (script >>= f).outcome = .ok b ↔ ∃ a, script.outcome = .ok a ∧ (f a).outcome = .ok b := by
  rw [bind_eq, outcome_bind]
  cases script.outcome with
  | ok a => exact ⟨fun h => ⟨a, rfl, h⟩, fun ⟨_, ha, h⟩ => by cases ha; exact h⟩
  | error error =>
    refine ⟨fun h => ?_, fun ⟨_, ha, _⟩ => ?_⟩
    · cases h
    · cases ha

theorem outcome_bind_of_ok {script : Script α} {f : α → Script β} {a : α}
    (h : script.outcome = .ok a) : (script >>= f).outcome = (f a).outcome := by
  rw [bind_eq, outcome_bind, h]
  rfl

theorem steps_bind_of_ok {script : Script α} {f : α → Script β} {a : α}
    (h : script.outcome = .ok a) : (script >>= f).steps = script.steps ++ (f a).steps := by
  rw [bind_eq, steps_bind, h]

theorem steps_bind_of_error {script : Script α} {f : α → Script β} {error : Error}
    (h : script.outcome = .error error) : (script >>= f).steps = script.steps := by
  rw [bind_eq, steps_bind, h]
  exact List.append_nil script.steps

theorem mem_steps_bind {script : Script α} {f : α → Script β} {step : Step} :
    step ∈ (script >>= f).steps ↔
      step ∈ script.steps ∨ ∃ a, script.outcome = .ok a ∧ step ∈ (f a).steps := by
  cases hout : script.outcome with
  | ok a =>
    rw [steps_bind_of_ok hout, List.mem_append]
    simp only [Except.ok.injEq, exists_eq_left']
  | error error =>
    rw [steps_bind_of_error hout]
    simp only [reduceCtorEq, false_and, exists_false, or_false]

/-! ## Callbacks -/

@[simp] theorem outcome_called (call : Call) (answer : Noted α) :
    (called call answer).outcome = .ok answer.value := by
  unfold called
  rw [outcome_bind_of_ok (outcome_event _), outcome_bind_of_ok (outcome_notes _), outcome_pure]

@[simp] theorem steps_called (call : Call) (answer : Noted α) :
    (called call answer).steps =
      .record (.call call) :: answer.notes.map fun note => .record (.note note) := by
  unfold called
  rw [steps_bind_of_ok (outcome_event _), steps_bind_of_ok (outcome_notes _)]
  simp

/-! ## Listed results -/

/-- The results of the scripts from the one with the number `index` on, behind those given. -/
def collectFrom (item : Nat → Script α) (count index : Nat) (results : List α) :
    Script (List α) :=
  Dialogue.collect item count index results

@[simp] theorem collectFrom_zero (item : Nat → Script α) (index : Nat) (results : List α) :
    collectFrom item 0 index results = Pure.pure results.reverse := rfl

theorem collectFrom_succ (item : Nat → Script α) (count index : Nat) (results : List α) :
    collectFrom item (count + 1) index results =
      item index >>= fun a => collectFrom item count (index + 1) (a :: results) := rfl

end Script

end ByteLayout.Write
