import ByteLayout.Proofs.Isolation
import ByteLayout.Proofs.Nesting
import ByteLayout.Proofs.WriteHistory

/-!
# How far a play has come

A part of a script that was played without a failure was played as a whole, whatever the sinks do:
the open stream has accepted its bytes (`Serves.accepted_playAll`), and the journal shows what it
writes down. If a sink fails on the way, what comes behind is not played, and shows nothing
(`view_playAll_of_unshown`).

**Theorem (`Reaches.serves`).** Whatever part of a pass is reached, nothing has failed before it.
-/

namespace ByteLayout

/-- A way to look at events that sees only what a pass writes down itself. -/
def Introspective {α : Type} (look : Event → Option α) : Prop :=
  ∀ event : Event, ¬event.Own → look event = none

namespace WriteStream

theorem put_quiet (stream : WriteStream) (bytes : List UInt8) :
    ∀ event ∈ (stream.put bytes).events, event.Quiet :=
  (put_trails stream.alongside_reliable bytes).quiet

theorem copy_quiet (stream : WriteStream) (bytes : List UInt8) :
    ∀ event ∈ (stream.copy bytes).events, event.Quiet :=
  (copy_trails stream.alongside_reliable bytes).quiet

theorem finish_quiet (stream : WriteStream) : ∀ event ∈ stream.finish.events, event.Quiet :=
  (finish_trails stream.alongside_reliable).quiet

end WriteStream

namespace Write

namespace Script

variable {α β γ : Type}

theorem bind_assoc (script : Script α) (f : α → Script β) (g : β → Script γ) :
    (script >>= f) >>= g = script >>= fun a => f a >>= g :=
  Dialogue.andThen_assoc script f g

/-! ## Properties of all steps -/

theorem forall_steps_bind {P : Step → Prop} {script : Script α} {f : α → Script β}
    (h : ∀ step ∈ script.steps, P step) (hf : ∀ a, ∀ step ∈ (f a).steps, P step) :
    ∀ step ∈ (script >>= f).steps, P step := by
  intro step hstep
  rcases mem_steps_bind.mp hstep with hstep | ⟨a, -, hstep⟩
  · exact h step hstep
  · exact hf a step hstep

theorem forall_steps_collectFrom {P : Step → Prop} {item : Nat → Script α}
    (h : ∀ index, ∀ step ∈ (item index).steps, P step) :
    ∀ count index results, ∀ step ∈ (collectFrom item count index results).steps, P step
  | 0, _, _ => List.forall_mem_nil P
  | count + 1, index, results =>
    forall_steps_bind (h index) fun a => forall_steps_collectFrom h count (index + 1) (a :: results)

/-! ## Listed results, from the last on -/

theorem collectFrom_snoc (item : Nat → Script α) : ∀ (count index : Nat) (results : List α),
    collectFrom item (count + 1) index results =
      collectFrom item count index results >>= fun all =>
        item (index + count) >>= fun a => Pure.pure (all ++ [a])
  | 0, index, results => by
    show (item index >>= fun a => Pure.pure (a :: results).reverse) = _
    simp only [List.reverse_cons]
    rfl
  | count + 1, index, results => by
    rw [collectFrom_succ, collectFrom_succ, bind_assoc]
    refine congrArg (item index >>= ·) (funext fun a => ?_)
    rw [collectFrom_snoc item count, Nat.add_right_comm, Nat.add_assoc]

/-- One result more is that of the last script. -/
theorem collect_succ (count : Nat) (item : Nat → Script α) :
    collect (count + 1) item =
      collect count item >>= fun all => item count >>= fun a => Pure.pure (all ++ [a]) := by
  have hsnoc := collectFrom_snoc item count 0 []
  rwa [Nat.zero_add] at hsnoc

end Script

namespace Step

/-- Steps inside a file neither open nor close one. -/
theorem nextAll_of_inside {inFile last : Bool} {steps : List Step}
    (h : ∀ step ∈ steps, step.Inside) (hlast : nextAll inFile steps = some last) :
    last = inFile := by
  induction steps with
  | nil => exact (Option.some.inj hlast).symm
  | cons step rest ih =>
    rw [nextAll_cons] at hlast
    obtain ⟨after, hafter, hrest⟩ := Option.bind_eq_some_iff.mp hlast
    have hstep : after = inFile := by
      have hinside := h step List.mem_cons_self
      cases step with
      | record event => exact (Option.some.inj hafter).symm
      | openFile path => exact absurd hinside id
      | closeFile path => exact absurd hinside id
      | field path kind => cases inFile <;> cases hafter; rfl
      | payload bytes => cases inFile <;> cases hafter; rfl
      | scalar bytes =>
        simp only [next, Option.ite_none_right_eq_some, Option.some.injEq] at hafter
        exact hafter.2.symm.trans hafter.1.1.symm
    rw [hstep] at hrest
    exact ih (fun other hother => h other (List.mem_cons_of_mem _ hother)) hrest

/-- What comes behind other steps comes in order too. -/
theorem exists_nextAll_of_append {inFile last : Bool} {first second : List Step}
    (h : nextAll inFile (first ++ second) = some last) :
    ∃ between, nextAll inFile first = some between ∧ nextAll between second = some last := by
  unfold nextAll at h ⊢
  rw [List.foldlM_append] at h
  exact Option.bind_eq_some_iff.mp h

/-- What a step shows of what it writes down itself. -/
def shown? {α : Type} (look : Event → Option α) : Step → Option α
  | .record event => look event
  | _ => none

end Step

namespace Stage

variable {α β γ : Type} {setup : Setup} {stage later : Stage} {lives : List Life}
  {offers : List Nat} {inFile last : Bool}

/-- The bytes that the open stream has accepted. -/
def accepted (stage : Stage) : List UInt8 := (stage.current.map WriteStream.accepted).getD []

/-! ## What is played without a failure -/

/-- What is done with the result does not change how a script is played. -/
theorem playAll_map (script : Script α) (f : α → β) :
    stage.playAll setup (script >>= fun a => Pure.pure (f a)) =
      ((stage.playAll setup script).1, (stage.playAll setup script).2.map f) := by
  rw [playAll_bind]
  rcases stage.playAll setup script with ⟨later, error | a⟩ <;> rfl

theorem playAll_bind_eq_ok {script : Script α} {f : α → Script β} {b : β} :
    stage.playAll setup (script >>= f) = (later, .ok b) ↔
      ∃ between a, stage.playAll setup script = (between, .ok a) ∧
        between.playAll setup (f a) = (later, .ok b) := by
  rw [playAll_bind]
  rcases stage.playAll setup script with ⟨between, error | a⟩
  · refine ⟨fun h => ?_, fun ⟨_, _, h, _⟩ => ?_⟩
    · cases (Prod.mk.inj h).2
    · cases (Prod.mk.inj h).2
  · refine ⟨fun h => ⟨between, a, rfl, h⟩, fun ⟨_, _, h, hrest⟩ => ?_⟩
    cases h
    exact hrest

/-- **What was played to a good end was played as a whole.** -/
theorem Serves.playAll (hcapacity : 8 ≤ setup.capacity) (h : stage.Serves inFile lives offers)
    {script : Script α} (hown : script.Own) (hlast : Step.nextAll inFile script.steps = some last)
    {a : α} (hplay : stage.playAll setup script = (later, .ok a)) (rest : List Step) :
    script.outcome = .ok a ∧ ∃ lives' offers', later.Serves last lives' offers' ∧
      later.files lives' rest = stage.files lives (script.steps ++ rest) := by
  induction script generalizing stage inFile lives offers with
  | done result =>
    obtain ⟨rfl, rfl⟩ := Prod.mk.inj hplay
    obtain rfl := Option.some.inj hlast
    exact ⟨rfl, lives, offers, h, rfl⟩
  | ask step next ih =>
    change Step.nextAll inFile (step :: Script.steps (next ())) = some last at hlast
    rw [Step.nextAll_cons] at hlast
    obtain ⟨after, hafter, hrest⟩ := Option.bind_eq_some_iff.mp hlast
    have hstep := play_serves hcapacity h (hown step List.mem_cons_self) hafter
      (Script.steps (next ()) ++ rest)
    rw [Stage.playAll] at hplay
    cases hone : stage.play setup step with | mk between failure
    rw [hone] at hplay hstep
    cases hstep with
    | stopped => cases (Prod.mk.inj hplay).2
    | taken lives' offers' hserves hfiles =>
      obtain ⟨hok, lives'', offers'', hlater, hall⟩ := ih () hserves
        (fun other hother => hown other (List.mem_cons_of_mem _ hother)) hrest hplay
      exact ⟨hok, lives'', offers'', hlater, hall.trans hfiles⟩

theorem Serves.files_eq (h : stage.Serves true lives offers) {steps : List Step}
    (hinside : ∀ step ∈ steps, step.Inside) : ∃ path, stage.files lives steps =
      lives.map Life.file ++ [(path, stage.accepted ++ Step.content [] steps)] := by
  obtain ⟨stream, hcurrent, -⟩ := h.current_eq_some
  have hnone : Step.files [] (steps ++ []) = Step.files [] [] :=
    Step.files_append_of_inside [] hinside
  rw [List.append_nil] at hnone
  refine ⟨stream.path, ?_⟩
  unfold files accepted
  rw [hnone, hcurrent]
  exact List.append_nil _

/-- **Bytes that were played in a file were accepted by its stream**, whatever its sink does. -/
theorem Serves.accepted_playAll (hcapacity : 8 ≤ setup.capacity)
    (h : stage.Serves true lives offers) {script : Script α} (hown : script.Own)
    (hinside : script.Inside) (hlast : Step.nextAll true script.steps = some last) {a : α}
    (hplay : stage.playAll setup script = (later, .ok a)) :
    (∃ lives' offers', later.Serves true lives' offers') ∧
      later.accepted = stage.accepted ++ Step.content [] script.steps := by
  obtain rfl := Step.nextAll_of_inside hinside hlast
  obtain ⟨-, lives', offers', hserves, hfiles⟩ := h.playAll hcapacity hown hlast hplay []
  refine ⟨⟨lives', offers', hserves⟩, ?_⟩
  obtain ⟨path, hbefore⟩ := h.files_eq hinside
  obtain ⟨path', hafter⟩ := hserves.files_eq (List.forall_mem_nil Step.Inside)
  rw [List.append_nil, hbefore, hafter] at hfiles
  have hfile := List.singleton_inj.mp (List.append_inj' hfiles rfl).2
  rw [← (Prod.mk.inj hfile).2]
  exact (List.append_nil _).symm

/-- What is reached from there is reached. -/
theorem Reaches.trans {mid : Stage} {part : Script γ} {script : Script β} {whole : Script α}
    (h : Reaches setup later part mid script) (hscript : Reaches setup mid script stage whole) :
    Reaches setup later part stage whole := by
  induction hscript with
  | here => exact h
  | first f _ ih => exact .first f ih
  | next hfirst _ ih => exact .next hfirst ih

/-- **Before what is reached nothing has failed.** -/
theorem Reaches.serves {part : Script β} {script : Script α}
    (h : Reaches setup later part stage script) (hcapacity : 8 ≤ setup.capacity)
    (hserves : stage.Serves inFile lives offers) (hown : script.Own)
    (hlast : Step.nextAll inFile script.steps = some last) :
    part.Own ∧ ∃ inFile' lives' offers' last', later.Serves inFile' lives' offers' ∧
      Step.nextAll inFile' part.steps = some last' := by
  induction h generalizing inFile lives offers last with
  | here => exact ⟨hown, inFile, lives, offers, last, hserves, hlast⟩
  | @first _ _ stage script f _ ih =>
    rw [Script.bind_eq, Script.steps_bind] at hlast
    obtain ⟨between, hbetween, -⟩ := Step.exists_nextAll_of_append hlast
    refine ih hserves (fun step hstep => hown step ?_) hbetween
    exact Script.mem_steps_bind.mpr (.inl hstep)
  | @next _ _ stage between script f a hscript _ ih =>
    have hfirst : script.Own := fun step hstep =>
      hown step (Script.mem_steps_bind.mpr (.inl hstep))
    rw [Script.bind_eq, Script.steps_bind] at hlast
    obtain ⟨middle, hmiddle, hrest⟩ := Step.exists_nextAll_of_append hlast
    obtain ⟨hok, lives', offers', hbetween, -⟩ :=
      hserves.playAll hcapacity hfirst hmiddle hscript []
    rw [hok] at hrest
    refine ih hbetween (fun step hstep => hown step ?_) hrest
    exact Script.mem_steps_bind.mpr (.inr ⟨a, hok, hstep⟩)

/-! ## What is written down -/

theorem view_onStream {look : Event → Option β} (hlook : Attentive look)
    {operation : WriteStream → Outcome WriteStream Unit}
    (hquiet : ∀ stream, ∀ event ∈ (operation stream).events, event.Quiet) :
    (stage.onStream operation).1.journal.view look = stage.journal.view look := by
  obtain ⟨journal, streams, current⟩ := stage
  cases current with
  | none => rfl
  | some stream =>
    rw [onStream_some]
    exact Journal.view_append_quiet hlook journal (hquiet stream)

theorem view_openFile {look : Event → Option β} (hlook : Attentive look)
    (hown : Introspective look) (path : String) :
    (stage.play setup (.openFile path)).1.journal.view look = stage.journal.view look := by
  unfold play
  dsimp only
  split
  · rfl
  · have hready : look (.trace (.writeReady path setup.capacity)) = none := hlook _ trivial
    refine (Journal.view_append look stage.journal _).trans ?_
    rw [List.filterMap_cons, hown _ id, List.filterMap_cons, hready]
    exact List.append_nil _

/-- Of a step one sees what it writes down itself, whether it fails or not. -/
theorem view_play {look : Event → Option β} (hlook : Attentive look) (hown : Introspective look)
    (step : Step) : (stage.play setup step).1.journal.view look =
      stage.journal.view look ++ (step.shown? look).toList := by
  cases step with
  | record event =>
    refine (Journal.view_append look stage.journal [event]).trans ?_
    rw [List.filterMap_cons]
    show _ = _ ++ (look event).toList
    cases look event <;> rfl
  | openFile path => exact (view_openFile hlook hown path).trans (List.append_nil _).symm
  | field path kind =>
    refine (Journal.view_append look stage.journal _).trans ?_
    rw [List.filterMap_cons, hown _ id]
    rfl
  | scalar bytes =>
    exact (view_onStream hlook fun stream => stream.put_quiet bytes).trans
      (List.append_nil _).symm
  | payload bytes =>
    exact (view_onStream hlook fun stream => stream.copy_quiet bytes).trans
      (List.append_nil _).symm
  | closeFile path =>
    obtain ⟨journal, streams, current⟩ := stage
    cases current with
    | none => exact (List.append_nil _).symm
    | some stream =>
      exact (view_closeStream hlook stream.finish_quiet).trans (List.append_nil _).symm

/-- Where a script shows nothing, nothing is seen of it, however far it is played. -/
theorem view_playAll_of_unshown {look : Event → Option β} (hlook : Attentive look)
    (hown : Introspective look) {script : Script α}
    (h : ∀ step ∈ script.steps, step.shown? look = none) (stage : Stage) :
    (stage.playAll setup script).1.journal.view look = stage.journal.view look := by
  induction script generalizing stage with
  | done result => rfl
  | ask step next ih =>
    have hstep : (stage.play setup step).1.journal.view look = _ := view_play hlook hown step
    rw [h step List.mem_cons_self, Option.toList_none, List.append_nil] at hstep
    rw [playAll]
    rcases hplay : stage.play setup step with ⟨between, _ | error⟩
    · rw [hplay] at hstep
      exact (ih () (fun other hother => h other (List.mem_cons_of_mem _ hother)) between).trans
        hstep
    · rw [hplay] at hstep
      exact hstep

/-- A script that only writes events down does that, and ends as it does. -/
theorem playAll_silent {script : Script α} (h : script.Silent) (stage : Stage) :
    ∃ later, stage.playAll setup script = (later, script.outcome) ∧
      later.current = stage.current ∧ ∀ {β : Type} (look : Event → Option β),
        later.journal.view look =
          stage.journal.view look ++ script.steps.filterMap (Step.shown? look) := by
  induction script generalizing stage with
  | done result => exact ⟨stage, rfl, rfl, fun _ => (List.append_nil _).symm⟩
  | ask step next ih =>
    obtain ⟨event, rfl, -⟩ := h step List.mem_cons_self
    obtain ⟨later, hplay, hcurrent, hview⟩ :=
      ih () (fun other hother => h other (List.mem_cons_of_mem _ hother)) (stage.log [event])
    refine ⟨later, hplay, hcurrent, fun look => ?_⟩
    have hevent : (stage.log [event]).journal.view look =
        stage.journal.view look ++ [event].filterMap look := Journal.view_append look _ _
    rw [hview look, hevent, List.append_assoc]
    refine congrArg (_ ++ ·) ?_
    show _ = (Step.record event :: Script.steps (next ())).filterMap _
    rw [List.filterMap_cons, List.filterMap_cons, List.filterMap_nil]
    show _ = match look event with
      | none => _
      | some shown => shown :: _
    cases look event <;> rfl

/-- Where nothing more is shown behind a script that only writes events down, its own are seen. -/
theorem view_playAll_after_silent {look : Event → Option γ} (hlook : Attentive look)
    (hown : Introspective look) {script : Script α} (h : script.Silent) {f : α → Script β}
    (hf : ∀ a, ∀ step ∈ (f a).steps, step.shown? look = none) (stage : Stage) :
    (stage.playAll setup (script >>= f)).1.journal.view look =
      stage.journal.view look ++ script.steps.filterMap (Step.shown? look) := by
  obtain ⟨later, hplay, -, hview⟩ := playAll_silent h stage
  rw [playAll_bind, hplay]
  cases script.outcome with
  | error error => exact hview look
  | ok a => exact (view_playAll_of_unshown hlook hown (hf a) later).trans (hview look)

end Stage

end Write

end ByteLayout
