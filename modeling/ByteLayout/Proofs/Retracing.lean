import ByteLayout.Proofs.Float
import ByteLayout.Proofs.Silence
import ByteLayout.Read.Plan

/-!
# Plans that retrace a script

A read pass asks for the bytes that a write pass has written. `Retraces aligned plan steps a` says
so without any stream: the plan goes along the steps, every question is answered by the step that it
meets, and the plan ends with the result `a`. What only one of the two passes writes down is passed
over, unless it is a field or the choice of a node.

If the passes are **aligned**, they also go through the same paths, and callbacks that pick nodes
see the same context. Otherwise they may lie in different directories.

`Follows aligned plan script` is what is proved of the parts of the two passes: if the script ends
well and all that it found in its provider is **faithful**, the plan retraces it to the same result.
Faithful are a float that its kind represents, and a lazy sequence with as many items as it
declares. **Theorem (`Follows.bind`).** Following composes.
-/

namespace ByteLayout

/-! ## Faithful provisions -/

/-- Whether a read pass can find again what was found in the provider. -/
def Event.Faithful : Event → Prop
  | .resolved _ kind value =>
    ∀ float : FloatKind, kind = float.label → ∃ x, value = .float x ∧ float.Represents x
  | .generated _ count length => count.toInteger = .ok (length : Int)
  | _ => True

namespace Write

/-- Whether a step writes down nothing that is not faithful. -/
def Step.Faithful : Step → Prop
  | .record event => event.Faithful
  | _ => True

/-- Whether all that a script found in its provider is faithful. -/
def Script.Faithful {α : Type} (script : Script α) : Prop := ∀ step ∈ script.steps, step.Faithful

theorem Script.faithful_bind {α β : Type} {script : Script α} {f : α → Script β} {a : α}
    (h : script.outcome = .ok a) :
    (script >>= f).Faithful ↔ script.Faithful ∧ (f a).Faithful := by
  unfold Script.Faithful
  rw [Script.steps_bind_of_ok h, List.forall_mem_append]

end Write

namespace Read

open Write

variable {aligned : Prop} {α β : Type}

/-! ## Retracing -/

/-- A plan goes along the steps of a script to a result. -/
inductive Retraces (aligned : Prop) : Plan α → List Step → α → Prop
  | done (a : α) : Retraces aligned (.done (.ok a)) [] a
  /-- Only the script writes something down. -/
  | ahead {plan : Plan α} {steps : List Step} {a : α} {event : Event} (h : event.Unseen)
    (rest : Retraces aligned plan steps a) : Retraces aligned plan (.record event :: steps) a
  /-- Only the plan writes something down. -/
  | aside {next : Unit → Plan α} {steps : List Step} {a : α} {event : Event} (h : event.Unseen)
    (rest : Retraces aligned (next ()) steps a) :
    Retraces aligned (.ask (.record event) next) steps a
  | select {next : Unit → Plan α} {steps : List Step} {a : α} {context other : FieldContext}
    (h : aligned → other = context) (rest : Retraces aligned (next ()) steps a) :
    Retraces aligned (.ask (.record (.call (.select other))) next)
      (.record (.call (.select context)) :: steps) a
  | field {next : Unit → Plan α} {steps : List Step} {a : α} {path other : String} (kind : String)
    (h : aligned → other = path) (rest : Retraces aligned (next ()) steps a) :
    Retraces aligned (.ask (.field other kind) next) (.field path kind :: steps) a
  | fetch {next : Except Error (List UInt8) → Plan α} {steps : List Step} {a : α}
    (bytes : List UInt8) (rest : Retraces aligned (next (.ok bytes)) steps a) :
    Retraces aligned (.ask (.fetch bytes.length) next) (.scalar bytes :: steps) a
  | read {next : Except Error (List UInt8) → Plan α} {steps : List Step} {a : α}
    (bytes : List UInt8) (rest : Retraces aligned (next (.ok bytes)) steps a) :
    Retraces aligned (.ask (.read bytes.length) next) (.payload bytes :: steps) a
  | openFile {next : Except Error Unit → Plan α} {steps : List Step} {a : α} {path other : String}
    (h : aligned → other = path) (rest : Retraces aligned (next (.ok ())) steps a) :
    Retraces aligned (.ask (.openFile other) next) (.openFile path :: steps) a
  | closeFile {next : Unit → Plan α} {steps : List Step} {a : α} {path other : String}
    (h : aligned → other = path) (rest : Retraces aligned (next ()) steps a) :
    Retraces aligned (.ask (.closeFile other) next) (.closeFile path :: steps) a

theorem Retraces.bind {plan : Plan α} {f : α → Plan β} {first second : List Step} {a : α} {b : β}
    (h : Retraces aligned plan first a) (hf : Retraces aligned (f a) second b) :
    Retraces aligned (plan >>= f) (first ++ second) b := by
  induction h with
  | done a => exact hf
  | ahead h rest ih => exact .ahead h (ih hf)
  | aside h rest ih => exact .aside h (ih hf)
  | select h rest ih => exact .select h (ih hf)
  | field kind h rest ih => exact .field kind h (ih hf)
  | fetch bytes rest ih => exact .fetch bytes (ih hf)
  | read bytes rest ih => exact .read bytes (ih hf)
  | openFile h rest ih => exact .openFile h (ih hf)
  | closeFile h rest ih => exact .closeFile h (ih hf)

/-- What a silent script writes down is passed over. -/
theorem Retraces.after_silent {plan : Plan α} {first second : List Step} {a : α}
    (hfirst : ∀ step ∈ first, ∃ event, step = .record event ∧ event.Unseen)
    (h : Retraces aligned plan second a) : Retraces aligned plan (first ++ second) a := by
  induction first with
  | nil => exact h
  | cons step rest ih =>
    obtain ⟨event, rfl, hevent⟩ := hfirst step List.mem_cons_self
    exact .ahead hevent (ih fun other hother => hfirst other (List.mem_cons_of_mem _ hother))

/-! ## Following -/

/-- If the script ends well and is faithful, the plan retraces it to the same result. -/
def Follows (aligned : Prop) (plan : Plan α) (script : Script α) : Prop :=
  ∀ a, script.outcome = .ok a → script.Faithful → Retraces aligned plan script.steps a

variable {plan : Plan α} {script : Script α}

theorem follows_done (result : Except Error α) :
    Follows aligned (.ofExcept result) (.ofExcept result) := by
  intro a ha _
  obtain rfl : result = .ok a := ha
  exact .done a

theorem follows_pure (a : α) : Follows aligned (pure a) (pure a) := follows_done (.ok a)

theorem follows_fail (plan : Plan α) (error : Error) : Follows aligned plan (.fail error) := by
  intro a ha
  cases ha

/-- **Following composes.** -/
theorem Follows.bind {f : α → Plan β} {g : α → Script β} (h : Follows aligned plan script)
    (hf : ∀ a, script.outcome = .ok a → Follows aligned (f a) (g a)) :
    Follows aligned (plan >>= f) (script >>= g) := by
  intro b hb hfaithful
  obtain ⟨a, ha, hb⟩ := Script.outcome_bind_eq_ok.mp hb
  obtain ⟨hfirst, hsecond⟩ := (Script.faithful_bind ha).mp hfaithful
  rw [Script.steps_bind_of_ok ha]
  exact (h a ha hfirst).bind (hf a ha b hb hsecond)

/-- What is silent in the script is passed over; what it found is faithful. -/
theorem Follows.after_silent {plan : Plan β} {g : α → Script β} (h : script.Silent)
    (hg : ∀ a, script.outcome = .ok a → script.Faithful → Follows aligned plan (g a)) :
    Follows aligned plan (script >>= g) := by
  intro b hb hfaithful
  obtain ⟨a, ha, hb⟩ := Script.outcome_bind_eq_ok.mp hb
  obtain ⟨hfirst, hsecond⟩ := (Script.faithful_bind ha).mp hfaithful
  rw [Script.steps_bind_of_ok ha]
  exact .after_silent h (hg a ha hfirst b hb hsecond)

theorem Follows.after_check {plan : Plan β} {path : String} {result : Except Reason α}
    {g : α → Script β} (h : ∀ a, result = .ok a → Follows aligned plan (g a)) :
    Follows aligned plan (.ofCheck path result >>= g) :=
  .after_silent (Script.silent_of_no_steps (Script.steps_ofCheck _ _)) fun a ha _ =>
    h a (Script.outcome_ofCheck_eq_ok.mp ha)

theorem follows_unseen {event other : Event} (h : event.Unseen) (hother : other.Unseen) :
    Follows aligned (.event other) (.event event) := by
  intro _ _ _
  exact .aside hother (.ahead h (.done ()))

theorem follows_select {context other : FieldContext} (h : aligned → other = context) :
    Follows aligned (.event (.call (.select other))) (.event (.call (.select context))) := by
  intro _ _ _
  exact .select h (.done ())

theorem follows_notes (notes : List Note) :
    Follows aligned (.notes notes) (.notes notes) := by
  induction notes with
  | nil => exact follows_pure ()
  | cons note rest ih =>
    intro a ha hfaithful
    refine .aside ⟨rfl, rfl⟩ (.ahead ⟨rfl, rfl⟩ (ih a ha fun step hstep => ?_))
    exact hfaithful step (List.mem_cons_of_mem _ hstep)

end Read

/-! ## Listed results -/

namespace Read.Plan

/-- The results of the plans from the one with the number `index` on, behind those given. -/
def collectFrom {α : Type} (item : Nat → Plan α) (count index : Nat) (results : List α) :
    Plan (List α) :=
  Dialogue.collect item count index results

end Read.Plan

namespace Read

open Write

variable {aligned : Prop} {α : Type}

theorem Follows.collectFrom {plan : Nat → Plan α} {script : Nat → Script α}
    (h : ∀ index, Follows aligned (plan index) (script index)) (count : Nat) :
    ∀ (index : Nat) (results : List α),
      Follows aligned (Plan.collectFrom plan count index results)
        (Script.collectFrom script count index results) := by
  induction count with
  | zero => exact fun _ results => follows_pure results.reverse
  | succ count ih =>
    exact fun index results => (h index).bind fun a _ => ih (index + 1) (a :: results)

end Read

end ByteLayout
