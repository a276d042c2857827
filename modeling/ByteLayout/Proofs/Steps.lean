import ByteLayout.Proofs.Script

/-!
# What steps write

The steps of a script say by themselves which files come about and what is in them, without any
buffer: `Step.files` lists the files that are opened with all their bytes, `Step.content` is what is
still to come of the file that is open, and `Step.shown` lists the events that are not the business
of a stream.

Steps come in an order. Files are opened one at a time, and between the opening and the closing of
a file there are fields, scalars and payloads; a scalar has at most eight bytes (`Step.next`). A
script is **orderly** if its steps keep to that (`Script.Orderly`).
-/

namespace ByteLayout.Write

namespace Step

/-! ## Files -/

/-- The bytes up to the closing of the file that is open, or up to the end and then `tail`. -/
def content (tail : List UInt8) : List Step → List UInt8
  | [] => tail
  | .scalar bytes :: rest => bytes ++ content tail rest
  | .payload bytes :: rest => bytes ++ content tail rest
  | .closeFile _ :: _ => []
  | .record _ :: rest => content tail rest
  | .openFile _ :: rest => content tail rest
  | .field _ _ :: rest => content tail rest

/-- The files that are opened, with their bytes; a file that stays open gets `tail` at its end. -/
def files (tail : List UInt8) : List Step → List (String × List UInt8)
  | [] => []
  | .openFile path :: rest => (path, content tail rest) :: files tail rest
  | .closeFile _ :: rest => files tail rest
  | .scalar _ :: rest => files tail rest
  | .payload _ :: rest => files tail rest
  | .record _ :: rest => files tail rest
  | .field _ _ :: rest => files tail rest

/-- Whether a step neither opens nor closes a file. -/
def Inside : Step → Prop
  | .openFile _ => False
  | .closeFile _ => False
  | _ => True

theorem files_append_of_inside {tail : List UInt8} {first : List Step} (second : List Step)
    (h : ∀ step ∈ first, step.Inside) : files tail (first ++ second) = files tail second := by
  induction first with
  | nil => rfl
  | cons step rest ih =>
    have hrest := ih fun other hother => h other (List.mem_cons_of_mem _ hother)
    have hstep := h step List.mem_cons_self
    cases step with
    | openFile path => cases hstep
    | closeFile path => cases hstep
    | _ => exact hrest

/-- What is in the file behind steps that stay inside it. -/
theorem content_append_of_inside {tail : List UInt8} {first : List Step} (second : List Step)
    (h : ∀ step ∈ first, step.Inside) :
    content tail (first ++ second) = content [] first ++ content tail second := by
  induction first with
  | nil => rfl
  | cons step rest ih =>
    have hrest := ih fun other hother => h other (List.mem_cons_of_mem _ hother)
    cases step with
    | openFile path => exact absurd (h _ List.mem_cons_self) id
    | closeFile path => exact absurd (h _ List.mem_cons_self) id
    | scalar bytes => simp [content, hrest]
    | payload bytes => simp [content, hrest]
    | record event => exact hrest
    | field path kind => exact hrest

/-- The events of the steps themselves, from an offset in the open file on. -/
def shown (debug : Bool) : Nat → List Step → List Event
  | _, [] => []
  | offset, .record event :: rest => event :: shown debug offset rest
  | _, .openFile path :: rest => .opened path :: shown debug 0 rest
  | offset, .field path kind :: rest =>
    .trace (.field .write debug path kind offset) :: shown debug offset rest
  | offset, .scalar bytes :: rest => shown debug (offset + bytes.length) rest
  | offset, .payload bytes :: rest => shown debug (offset + bytes.length) rest
  | _, .closeFile _ :: rest => shown debug 0 rest

/-! ## Order -/

/-- Whether a file is open after a step, given whether one is open before. A step out of its place
has no such value. -/
def next (inFile : Bool) : Step → Option Bool
  | .record _ => some inFile
  | .openFile _ => if inFile then none else some true
  | .field _ _ => if inFile then some true else none
  | .scalar bytes => if inFile ∧ bytes.length ≤ 8 then some true else none
  | .payload _ => if inFile then some true else none
  | .closeFile _ => if inFile then some false else none

/-- Whether a file is open after several steps. -/
def nextAll (inFile : Bool) (steps : List Step) : Option Bool := steps.foldlM next inFile

@[simp] theorem nextAll_nil (inFile : Bool) : nextAll inFile [] = some inFile := rfl

theorem nextAll_cons (inFile : Bool) (step : Step) (rest : List Step) :
    nextAll inFile (step :: rest) = (step.next inFile).bind fun after => nextAll after rest := rfl

theorem nextAll_append {inFile after : Bool} {first : List Step} (second : List Step)
    (h : nextAll inFile first = some after) :
    nextAll inFile (first ++ second) = nextAll after second := by
  induction first generalizing inFile with
  | nil =>
    rw [nextAll_nil, Option.some.injEq] at h
    rw [List.nil_append, h]
  | cons step rest ih =>
    rw [nextAll_cons] at h
    rw [List.cons_append, nextAll_cons]
    cases hnext : step.next inFile with
    | none =>
      rw [hnext] at h
      cases h
    | some between =>
      rw [hnext] at h
      exact ih h

end Step

namespace Script

variable {α β : Type}

/-- Whether the steps of a script keep to the order, given whether a file is open before. If the
script ends well, `after` says whether one is open then. -/
def Orderly (before after : Bool) (script : Script α) : Prop :=
  ∃ last, Step.nextAll before script.steps = some last ∧
    ∀ a, script.outcome = .ok a → last = after

variable {before between after : Bool}

theorem Orderly.bind {script : Script α} {f : α → Script β} (h : Orderly before between script)
    (hf : ∀ a, script.outcome = .ok a → Orderly between after (f a)) :
    Orderly before after (script >>= f) := by
  obtain ⟨middle, hmiddle, hok⟩ := h
  cases hout : script.outcome with
  | ok a =>
    obtain ⟨last, hlast, hend⟩ := hf a hout
    refine ⟨last, ?_, fun b hb => hend b ?_⟩
    · rw [steps_bind_of_ok hout, Step.nextAll_append _ hmiddle, hok a hout, hlast]
    · rw [outcome_bind_of_ok hout] at hb
      exact hb
  | error error =>
    refine ⟨middle, by rw [steps_bind_of_error hout, hmiddle], fun b hb => ?_⟩
    obtain ⟨a, ha, -⟩ := outcome_bind_eq_ok.mp hb
    rw [hout] at ha
    cases ha

theorem orderly_step {step : Step} (h : step.next before = some after) :
    Orderly before after (Script.step step) := by
  refine ⟨after, ?_, fun _ _ => rfl⟩
  rw [steps_step, Step.nextAll_cons, h]
  rfl

theorem orderly_event (event : Event) : Orderly before before (Script.event event) :=
  orderly_step rfl

theorem orderly_of_no_steps {script : Script α} (h : script.steps = []) :
    Orderly before before script :=
  ⟨before, by rw [h]; rfl, fun _ _ => rfl⟩

theorem Orderly.collectFrom {item : Nat → Script α}
    (h : ∀ index, Orderly before before (item index)) :
    ∀ (count index : Nat) (results : List α),
      Orderly before before (collectFrom item count index results)
  | 0, _, _ => orderly_of_no_steps rfl
  | count + 1, index, results =>
    (h index).bind fun a _ => Orderly.collectFrom h count (index + 1) (a :: results)

end Script

end ByteLayout.Write
