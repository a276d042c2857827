import ByteLayout.Proofs.Progress

/-!
# What is found does not matter

A pass writes down the value that it finds for a field before it checks it (`Event.resolved`).
Nothing depends on that line of the journal. So two scripts may do the same and still find different
values, if these are refused for the same reason; then they are **alike** (`Script.Alike`).

**Step (`Stage.Alike.play`).** On stages that are alike one step does the same.

**Theorem (`Script.Alike.report`).** Scripts that are alike leave reports that are alike, whatever
the sinks do: the same streams, the same result, and journals that show the same apart from the
values that were found.
-/

namespace ByteLayout

/-- A way to look at events that does not see which value was found for a field. -/
def Incurious {β : Type} (look : Event → Option β) : Prop :=
  ∀ path kind value, look (.resolved path kind value) = none

theorem incurious_call? : Incurious Event.call? := fun _ _ _ => rfl

namespace Write

variable {α β : Type}

/-- Whether a step only writes down which value was found for a field. -/
def Step.isResolved : Step → Bool
  | .record (.resolved ..) => true
  | _ => false

namespace Script

theorem pure_bind (a : α) (f : α → Script β) : Pure.pure a >>= f = f a := rfl

/-- A script that does not write down which values it finds. -/
def incurious : Script α → Script α
  | .done result => .done result
  | .ask step next =>
    if step.isResolved then incurious (next ()) else .ask step fun reply => incurious (next reply)

section

variable {step : Step} (next : Unit → Dialogue (fun _ : Step => Unit) (Except Error α))

theorem incurious_of_resolved (h : step.isResolved = true) :
    incurious (.ask step next) = incurious (next ()) :=
  if_pos h

theorem incurious_of_not_resolved (h : step.isResolved = false) :
    incurious (.ask step next) = .ask step fun reply => incurious (next reply) :=
  if_neg (Bool.eq_false_iff.mp h)

end

theorem incurious_bind (script : Script α) (f : α → Script β) :
    (script >>= f).incurious = script.incurious >>= fun a => (f a).incurious := by
  induction script with
  | done result => cases result <;> rfl
  | ask step next ih =>
    cases hresolved : step.isResolved with
    | true =>
      rw [incurious_of_resolved next hresolved]
      exact (incurious_of_resolved (fun reply => (bind (next reply) f)) hresolved).trans (ih ())
    | false =>
      rw [incurious_of_not_resolved next hresolved]
      exact (incurious_of_not_resolved (fun reply => (bind (next reply) f)) hresolved).trans
        (congrArg (Dialogue.ask step) (funext ih))

theorem outcome_incurious (script : Script α) : script.incurious.outcome = script.outcome := by
  induction script with
  | done result => rfl
  | ask step next ih =>
    cases hresolved : step.isResolved with
    | true =>
      rw [incurious_of_resolved next hresolved]
      exact ih ()
    | false =>
      rw [incurious_of_not_resolved next hresolved]
      exact ih ()

/-- What comes behind a script matters for its result only. -/
theorem bind_congr_of_outcome {script : Script α} {f g : α → Script β}
    (h : ∀ a, script.outcome = .ok a → f a = g a) : script >>= f = script >>= g := by
  induction script with
  | done result =>
    cases result with
    | error error => rfl
    | ok a => exact h a rfl
  | ask step next ih => exact congrArg (Dialogue.ask step) (funext fun reply => ih reply h)

/-- Whether two scripts do the same, apart from the values that they write down as found. -/
def Alike (script other : Script α) : Prop := other.incurious = script.incurious

namespace Alike

variable {script other : Script α}

theorem of_eq (h : other = script) : script.Alike other := congrArg incurious h

/-- **Scripts that go on alike after scripts that are alike.** -/
theorem bind {f g : α → Script β} (h : script.Alike other)
    (hf : ∀ a, script.outcome = .ok a → (f a).Alike (g a)) :
    (script >>= f).Alike (other >>= g) := by
  unfold Alike
  rw [incurious_bind, incurious_bind, h]
  exact bind_congr_of_outcome fun a ha => hf a ((outcome_incurious script).symm.trans ha)

theorem after (script : Script α) {f g : α → Script β}
    (hf : ∀ a, script.outcome = .ok a → (f a).Alike (g a)) :
    (script >>= f).Alike (script >>= g) :=
  bind rfl hf

theorem map (h : script.Alike other) (f : α → Script β) : (script >>= f).Alike (other >>= f) :=
  h.bind fun _ _ => rfl

/-- Listed results are those of scripts that are alike, each where those before it end well. -/
theorem collect {item item' : Nat → Script α} {count : Nat}
    (h : ∀ index < count, ∀ values, (Script.collect index item).outcome = .ok values →
      (item index).Alike (item' index)) :
    (Script.collect count item).Alike (Script.collect count item') := by
  induction count with
  | zero => rfl
  | succ count ih =>
    rw [collect_succ, collect_succ]
    refine (ih fun index hindex => h index (Nat.lt_succ_of_lt hindex)).bind fun values hvalues => ?_
    exact (h count (Nat.lt_succ_self count) values hvalues).map _

end Alike

end Script

/-! ## Playing -/

/-- Reports of passes that did the same, apart from the values that they wrote down as found. -/
structure Report.Alike (report other : Report α) : Prop where
  result : other.result = report.result
  streams : other.streams = report.streams
  journal : ∀ {β : Type} {look : Event → Option β}, Incurious look →
    other.journal.view look = report.journal.view look

/-- Passes that are alike make the same callbacks. -/
theorem Report.Alike.calls {report other : Report α} (h : report.Alike other) :
    other.journal.calls = report.journal.calls :=
  h.journal incurious_call?

/-- Reports that are alike have the same files. -/
theorem Report.Alike.contents {report other : Report α} (h : report.Alike other) :
    other.contents = report.contents := by
  unfold Report.contents
  rw [h.streams]

namespace Stage

variable {setup : Setup} {stage other : Stage}

/-- Stages that are the same, apart from the values that the journals say were found. -/
structure Alike (stage other : Stage) : Prop where
  streams : other.streams = stage.streams
  current : other.current = stage.current
  journal : ∀ {β : Type} {look : Event → Option β}, Incurious look →
    other.journal.view look = stage.journal.view look

namespace Alike

theorem refl (stage : Stage) : stage.Alike stage := ⟨rfl, rfl, fun _ => rfl⟩

theorem symm (h : stage.Alike other) : other.Alike stage :=
  ⟨h.streams.symm, h.current.symm, fun hlook => (h.journal hlook).symm⟩

theorem trans {last : Stage} (h : stage.Alike other) (h' : other.Alike last) : stage.Alike last :=
  ⟨h'.streams.trans h.streams, h'.current.trans h.current, fun hlook =>
    (h'.journal hlook).trans (h.journal hlook)⟩

theorem log (h : stage.Alike other) (events : List Event) :
    (stage.log events).Alike (other.log events) := by
  refine ⟨h.streams, h.current, fun hlook => ?_⟩
  unfold Stage.log
  rw [Journal.view_append, Journal.view_append, h.journal hlook]

theorem onStream (h : stage.Alike other) (operation : WriteStream → Outcome WriteStream α) :
    (stage.onStream operation).1.Alike (other.onStream operation).1 ∧
      (other.onStream operation).2 = (stage.onStream operation).2 := by
  obtain ⟨journal, streams, current⟩ := stage
  obtain ⟨journal', streams', current'⟩ := other
  obtain ⟨hstreams, hcurrent, hjournal⟩ := h
  obtain rfl : streams' = streams := hstreams
  obtain rfl : current' = current := hcurrent
  cases current' with
  | none => exact ⟨⟨rfl, rfl, hjournal⟩, rfl⟩
  | some stream =>
    have hlater : (⟨journal ++ (operation stream).events, streams',
        some (operation stream).stream⟩ : Stage).Alike
          ⟨journal' ++ (operation stream).events, streams', some (operation stream).stream⟩ :=
      ⟨rfl, rfl, fun hlook => by rw [Journal.view_append, Journal.view_append, hjournal hlook]⟩
    unfold Stage.onStream
    dsimp only
    split <;> exact ⟨hlater, rfl⟩

theorem closeStream (h : stage.Alike other) (path : String) :
    (stage.closeStream path).1.Alike (other.closeStream path).1 ∧
      (other.closeStream path).2 = (stage.closeStream path).2 := by
  obtain ⟨journal, streams, current⟩ := stage
  obtain ⟨journal', streams', current'⟩ := other
  obtain ⟨hstreams, hcurrent, hjournal⟩ := h
  obtain rfl : streams' = streams := hstreams
  obtain rfl : current' = current := hcurrent
  cases current' with
  | none => exact ⟨⟨rfl, rfl, hjournal⟩, rfl⟩
  | some stream =>
    unfold Stage.closeStream
    dsimp only
    split
    · refine ⟨⟨rfl, rfl, fun hlook => ?_⟩, rfl⟩
      rw [Journal.view_push, Journal.view_push, Journal.view_append, Journal.view_append,
        hjournal hlook]
    · refine ⟨⟨rfl, rfl, fun hlook => ?_⟩, rfl⟩
      rw [Journal.view_append, Journal.view_append, hjournal hlook]

/-- **One step does the same on stages that are alike.** -/
theorem play (h : stage.Alike other) (setup : Setup) (step : Step) :
    (stage.play setup step).1.Alike (other.play setup step).1 ∧
      (other.play setup step).2 = (stage.play setup step).2 := by
  cases step with
  | record event => exact ⟨h.log [event], rfl⟩
  | scalar bytes => exact h.onStream fun stream => stream.put bytes
  | payload bytes => exact h.onStream fun stream => stream.copy bytes
  | closeFile path => exact h.closeStream path
  | field path kind =>
    have hoffset : other.offset = stage.offset := by
      unfold Stage.offset
      rw [h.current]
    rw [Stage.play, Stage.play, hoffset]
    exact ⟨h.log _, rfl⟩
  | openFile path =>
    have hpaths : other.openedPaths = stage.openedPaths := by
      unfold Stage.openedPaths
      rw [h.streams]
    rw [Stage.play, Stage.play, hpaths]
    cases setup.opener stage.openedPaths path with
    | error error => exact ⟨h, rfl⟩
    | ok behaviour =>
      obtain ⟨hstreams, -, hjournal⟩ := h.log [.opened path,
        .trace (.writeReady path setup.capacity)]
      exact ⟨⟨hstreams, rfl, hjournal⟩, rfl⟩

end Alike

/-- To write down what was found changes nothing that matters. -/
theorem play_resolved {step : Step} (h : step.isResolved = true) (setup : Setup) (stage : Stage) :
    (stage.play setup step).2 = none ∧ stage.Alike (stage.play setup step).1 := by
  cases step with
  | record event =>
    cases event with
    | resolved path kind value =>
      refine ⟨rfl, rfl, rfl, fun {β look} hlook => ?_⟩
      have hnone : [Event.resolved path kind value].filterMap look = [] := by
        rw [List.filterMap_cons_none (hlook path kind value), List.filterMap_nil]
      exact (Journal.view_append look _ _).trans (by rw [hnone, List.append_nil])
    | _ => cases h
  | _ => cases h

/-- So it may be left out. -/
theorem Alike.playAll_incurious (h : stage.Alike other) (setup : Setup) (script : Script α) :
    (stage.playAll setup script).1.Alike (other.playAll setup script.incurious).1 ∧
      (other.playAll setup script.incurious).2 = (stage.playAll setup script).2 := by
  induction script generalizing stage other with
  | done result => exact ⟨h, rfl⟩
  | ask step next ih =>
    cases hresolved : step.isResolved with
    | true =>
      obtain ⟨hnone, hsame⟩ := play_resolved hresolved setup stage
      rcases hplay : stage.play setup step with ⟨later, error⟩
      rw [hplay] at hnone hsame
      obtain rfl : error = none := hnone
      rw [Script.incurious_of_resolved next hresolved, playAll, hplay]
      exact ih () (hsame.symm.trans h)
    | false =>
      obtain ⟨hlater, herror⟩ := h.play setup step
      rcases hplay : stage.play setup step with ⟨later, error⟩
      rcases hplay' : other.play setup step with ⟨later', error'⟩
      rw [hplay, hplay'] at hlater herror
      obtain rfl : error' = error := herror
      rw [Script.incurious_of_not_resolved next hresolved]
      simp only [playAll, hplay, hplay']
      cases error' with
      | none => exact ih () hlater
      | some error => exact ⟨hlater, rfl⟩

theorem Alike.abandon (h : stage.Alike other) : stage.abandon.Alike other.abandon := by
  obtain ⟨journal, streams, current⟩ := stage
  obtain ⟨journal', streams', current'⟩ := other
  obtain ⟨hstreams, hcurrent, hjournal⟩ := h
  obtain rfl : streams' = streams := hstreams
  obtain rfl : current' = current := hcurrent
  cases current' with
  | none => exact ⟨rfl, rfl, hjournal⟩
  | some stream => exact ⟨rfl, rfl, hjournal⟩

end Stage

/-- **Scripts that are alike leave reports that are alike**, whatever the sinks do. -/
theorem Script.Alike.report {script other : Script α} (h : script.Alike other) (setup : Setup)
    (before : List Event) : (script.play setup before).Alike (other.play setup before) := by
  have hplayed : ∀ script : Script α, _ := fun script =>
    (Stage.Alike.refl (Stage.empty.log before)).playAll_incurious setup script
  obtain ⟨hstage, hresult⟩ := hplayed script
  obtain ⟨hstage', hresult'⟩ := hplayed other
  rw [h] at hstage' hresult'
  obtain ⟨hstreams, -, hjournal⟩ := (hstage.trans hstage'.symm).abandon
  exact ⟨hresult'.symm.trans hresult, hstreams, hjournal⟩

end Write

end ByteLayout
