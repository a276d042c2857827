import ByteLayout.Proofs.Playing
import ByteLayout.Proofs.ReadFaults
import ByteLayout.Proofs.WriteFailure
import ByteLayout.Proofs.WriteFaults

/-!
# What streams fail with

A stream is not the one to find a fault of the library: what it fails with is the failure of its
sink or source, or the end of the source. Of a write stream that is so as long as its scalars fit
its buffer (`WriteStream.put_tame`), of a read stream whatever it is asked.

**Theorem (`Write.Stage.Roomy.playAll_fault`, `Read.Stage.answerAll_fault`).** A script that is
played, or a plan that is answered, fails with an error of its own or with one that a sink, a source
or the opening of a file is the cause of.
-/

namespace ByteLayout

/-- Whether an error has its cause in a sink or a source, which may have ended. -/
def Error.External (error : Error) : Prop :=
  error.category = .io ∨ error.category = .unexpectedEnd

theorem Error.Internal.not_external {error : Error} (h : error.Internal) : ¬error.External := by
  rcases h.category with hcategory | hcategory
  · simp [External, hcategory]
  · simp [External, hcategory]

theorem Journal.mem_append {journal : Journal} {events : List Event} {event : Event} :
    event ∈ journal ++ events ↔ event ∈ journal ∨ event ∈ events := by
  rw [← Array.mem_toList_iff, ← Array.mem_toList_iff, Array.toList_appendList, List.mem_append]

/-! ## Write streams -/

namespace WriteStream

variable {α β : Type} {stream : WriteStream} {capacity : Nat}

/-- An operation that leaves a buffer of this capacity, and fails only as its sink does. -/
structure Tame (capacity : Nat) (outcome : Outcome WriteStream α) : Prop where
  capacity : outcome.stream.capacity = capacity
  external : ∀ error, outcome.result = .error error → error.External

theorem external_of_fail {cause : IoError} {events : List Event} (error : Error)
    (h : (stream.fail cause events : Outcome WriteStream α).result = .error error) :
    error.External := by
  cases h
  exact .inl rfl

theorem external_of_ok {a : α} {events : List Event} (error : Error)
    (h : (⟨.ok a, stream, events⟩ : Outcome WriteStream α).result = .error error) :
    error.External := by
  cases h

theorem Tame.bind {outcome : Outcome WriteStream α}
    {f : WriteStream → α → Outcome WriteStream β} (h : Tame capacity outcome)
    (hf : ∀ later a, later.capacity = capacity → Tame capacity (f later a)) :
    Tame capacity (outcome.bind f) := by
  obtain ⟨result, later, events⟩ := outcome
  cases result with
  | error error =>
    refine ⟨h.capacity, fun other hother => ?_⟩
    cases hother
    exact h.external error rfl
  | ok a =>
    have hnext := hf later a h.capacity
    exact ⟨hnext.capacity, hnext.external⟩

theorem live_tame {f : WriteStream → Outcome WriteStream α} (h : Tame stream.capacity (f stream)) :
    Tame stream.capacity (stream.live f) := by
  unfold live
  split
  · refine ⟨rfl, fun error herror => ?_⟩
    cases herror
    exact .inl rfl
  · exact h

theorem drain_tame (stream : WriteStream) : Tame stream.capacity stream.drain := by
  unfold drain
  dsimp only
  split
  · exact ⟨rfl, external_of_fail⟩
  · exact ⟨rfl, external_of_ok⟩

theorem flush_tame (stream : WriteStream) : Tame stream.capacity stream.flush := by
  refine live_tame ?_
  split
  · exact ⟨rfl, external_of_ok⟩
  · exact drain_tame stream

/-- **A scalar that fits the buffer** fails only as the sink does. -/
theorem put_tame {bytes : List UInt8} (h : bytes.length ≤ stream.capacity) :
    Tame stream.capacity (stream.put bytes) := by
  have hreserve : Tame stream.capacity (stream.reserve bytes.length) := by
    refine live_tame ?_
    rw [if_neg (Nat.not_lt.mpr h)]
    refine Tame.bind ?_ fun later _ hlater => ⟨hlater, external_of_ok⟩
    split
    · exact flush_tame stream
    · exact ⟨rfl, external_of_ok⟩
  exact hreserve.bind fun later _ hlater => ⟨hlater, external_of_ok⟩

theorem pump_tame (stream : WriteStream) (bytes : List UInt8) :
    Tame stream.capacity (stream.pump bytes []) := by
  match bytes with
  | [] =>
    rw [pump]
    exact ⟨rfl, external_of_ok⟩
  | byte :: rest =>
    have hfreed : Tame stream.capacity stream.freedIfFull := by
      unfold freedIfFull
      split
      · exact flush_tame stream
      · exact ⟨rfl, external_of_ok⟩
    rw [pump_cons_eq_bind]
    refine hfreed.bind fun later _ hlater => ?_
    unfold pour
    split
    · exact ⟨hlater, external_of_ok⟩
    -- filling keeps the capacity, so the stream that goes on is one like this
    · exact hlater ▸ pump_tame (later.fill (byte :: rest)) _
termination_by bytes.length
decreasing_by simp only [List.length_cons, List.length_drop]; omega

theorem copy_tame (stream : WriteStream) (bytes : List UInt8) :
    Tame stream.capacity (stream.copy bytes) :=
  live_tame (pump_tame { stream with state := .streaming } bytes)

theorem close_tame (stream : WriteStream) : Tame stream.capacity stream.close := by
  unfold close
  dsimp only
  split
  · exact ⟨rfl, external_of_fail⟩
  · split
    · exact ⟨rfl, external_of_fail⟩
    · exact ⟨rfl, external_of_ok⟩

theorem finish_tame (stream : WriteStream) : Tame stream.capacity stream.finish :=
  live_tame <| (flush_tame { stream with state := .finalizing }).bind fun later _ hlater =>
    hlater ▸ close_tame later

end WriteStream

/-! ## Read streams -/

namespace ReadStream

theorem receive_external {stream : ReadStream} {answer : Except IoError (List UInt8)}
    {error : Error} (h : (stream.receive answer).result = .error error) : error.External := by
  unfold receive at h
  split at h
  · cases h
    exact .inl rfl
  · cases h
  · cases h

/-- Waiting fails with the source or at its end, and otherwise there are enough bytes. -/
theorem fillUntil_outcome (stream : ReadStream) (count : Nat) (events : List Event) :
    (∀ error, (stream.fillUntil count events).result = .error error → error.External) ∧
      ((stream.fillUntil count events).result = .ok () →
        count ≤ (stream.fillUntil count events).stream.available) := by
  rw [fillUntil]
  split
  · refine ⟨fun error h => ?_, fun h => ?_⟩
    · cases h
      exact .inl rfl
    · cases h
  · split
    · next havailable =>
      refine ⟨fun error h => ?_, fun _ => havailable⟩
      cases h
    · next havailable =>
      split
      · refine ⟨fun error h => ?_, fun h => ?_⟩
        · cases h
          exact .inr rfl
        · cases h
      · next hcomplete =>
        split
        · next error filled more hfilled =>
          refine ⟨fun other h => ?_, fun h => ?_⟩
          · cases h
            exact receive_external (congrArg Outcome.result hfilled)
          · cases h
        · next filled more hfilled =>
          have hless := outstanding_lt_of_fillOnce_eq havailable hcomplete hfilled
          exact fillUntil_outcome filled count _
termination_by stream.outstanding count
decreasing_by assumption

variable {stream : ReadStream} {count : Nat}

theorem await_external {error : Error} (h : (stream.await count).result = .error error) :
    error.External :=
  (fillUntil_outcome stream count []).1 error h

theorem take_of_available (h : count ≤ stream.available) :
    ∃ bytes, (stream.take count).result = .ok bytes ∧ bytes.length = count := by
  refine ⟨stream.resident.toList.take count, ?_, ?_⟩
  · unfold take
    rw [if_neg (Nat.not_lt.mpr h)]
    exact congrArg Except.ok (ByteQueue.pop_fst _ _)
  · rw [List.length_take_of_le]
    rw [ByteQueue.length_toList]
    exact h

/-- What was waited for is there. -/
theorem available_of_await (h : (stream.await count).result = .ok ()) :
    count ≤ (stream.await count).stream.available :=
  (fillUntil_outcome stream count []).2 h

/-- **What was waited for can be taken.** -/
theorem take_of_await (h : (stream.await count).result = .ok ()) :
    ∃ bytes, ((stream.await count).stream.take count).result = .ok bytes ∧ bytes.length = count :=
  take_of_available (available_of_await h)

/-- Fetching fails as waiting does, and gives just as many bytes as were asked for. -/
theorem fetch_outcome (stream : ReadStream) (count : Nat) :
    (∀ error, (stream.fetch count).result = .error error → error.External) ∧
      ∀ bytes, (stream.fetch count).result = .ok bytes → bytes.length = count := by
  unfold fetch Outcome.bind
  cases hawait : (stream.await count).result with
  | error error =>
    refine ⟨fun other h => ?_, nofun⟩
    cases h
    exact await_external hawait
  | ok =>
    obtain ⟨taken, htaken, hlength⟩ := take_of_await hawait
    dsimp only
    rw [htaken]
    refine ⟨nofun, fun bytes h => ?_⟩
    cases h
    exact hlength

theorem collect_external {stream : ReadStream} {count : Nat} {bytes : Array UInt8}
    {events : List Event} {error : Error}
    (h : (stream.collect count bytes events).result = .error error) : error.External := by
  rw [collect] at h
  split at h
  · cases h
  · dsimp only at h
    split at h
    · next hfetch =>
      cases h
      exact (fetch_outcome stream _).1 error hfetch
    · exact collect_external h
termination_by count
decreasing_by omega

end ReadStream

/-! ## Playing a script -/

namespace Write

/-- Whether a file that cannot be opened is reported as a failure of its sink. -/
def SinkOpener.External (opener : SinkOpener) : Prop :=
  ∀ opened path error, opener opened path = .error error → error.External

namespace Stage

variable {setup : Setup} {stage : Stage}

/-- Whether the buffer of the open stream, if there is one, takes every scalar. -/
def Roomy (stage : Stage) : Prop := ∀ stream, stage.current = some stream → 8 ≤ stream.capacity

theorem onStream_fault {α : Type} {operation : WriteStream → Outcome WriteStream α}
    (h : stage.Roomy)
    (hoperation : ∀ stream, 8 ≤ stream.capacity →
      WriteStream.Tame stream.capacity (operation stream)) :
    (stage.onStream operation).1.Roomy ∧
      ∀ error, (stage.onStream operation).2 = some error → error.External := by
  obtain ⟨journal, streams, current⟩ := stage
  cases current with
  | none => exact ⟨nofun, nofun⟩
  | some stream =>
    have hroom := h stream rfl
    have htame := hoperation stream hroom
    unfold onStream
    dsimp only
    split
    · refine ⟨fun later hlater => ?_, nofun⟩
      cases hlater
      exact htame.capacity ▸ hroom
    · next error herror =>
      refine ⟨fun later hlater => ?_, fun other hother => ?_⟩
      · cases hlater
        exact htame.capacity ▸ hroom
      · cases hother
        exact htame.external error herror

theorem closeStream_fault (h : stage.Roomy) (path : String) :
    (stage.closeStream path).1.Roomy ∧
      ∀ error, (stage.closeStream path).2 = some error → error.External := by
  obtain ⟨journal, streams, current⟩ := stage
  cases current with
  | none => exact ⟨nofun, nofun⟩
  | some stream =>
    have htame := WriteStream.finish_tame stream
    unfold closeStream
    dsimp only
    split
    · exact ⟨nofun, nofun⟩
    · next error herror =>
      refine ⟨fun later hlater => ?_, fun other hother => ?_⟩
      · cases hlater
        exact htame.capacity ▸ h stream rfl
      · cases hother
        exact htame.external error herror

theorem play_fault (hopener : setup.opener.External) (hcapacity : 8 ≤ setup.capacity)
    (h : stage.Roomy) {step : Step} (hstep : ∀ bytes, step = .scalar bytes → bytes.length ≤ 8) :
    (stage.play setup step).1.Roomy ∧
      ∀ error, (stage.play setup step).2 = some error → error.External := by
  cases step with
  | record event => exact ⟨h, nofun⟩
  | field path kind => exact ⟨h, nofun⟩
  | scalar bytes =>
    exact onStream_fault h fun stream hroom =>
      WriteStream.put_tame (Nat.le_trans (hstep bytes rfl) hroom)
  | payload bytes => exact onStream_fault h fun stream _ => WriteStream.copy_tame stream bytes
  | closeFile path => exact closeStream_fault h path
  | openFile path =>
    unfold play
    dsimp only
    split
    · next error hfail =>
      refine ⟨h, fun other hother => ?_⟩
      cases hother
      exact hopener _ _ error hfail
    · refine ⟨fun stream hstream => ?_, nofun⟩
      cases hstream
      exact Nat.le_trans hcapacity (Nat.le_max_left _ _)

theorem mem_journal_onStream {α : Type} {event : Event} (h : event ∈ stage.journal)
    (operation : WriteStream → Outcome WriteStream α) :
    event ∈ (stage.onStream operation).1.journal := by
  obtain ⟨journal, streams, current⟩ := stage
  cases current with
  | none => exact h
  | some stream =>
    unfold onStream
    dsimp only
    split <;> exact Journal.mem_append.mpr (.inl h)

/-- What was written down stays. -/
theorem mem_journal_play {event : Event} (h : event ∈ stage.journal) (step : Step) :
    event ∈ (stage.play setup step).1.journal := by
  cases step with
  | record other => exact Journal.mem_append.mpr (.inl h)
  | field path kind => exact Journal.mem_append.mpr (.inl h)
  | scalar bytes => exact mem_journal_onStream h _
  | payload bytes => exact mem_journal_onStream h _
  | closeFile path =>
    unfold play closeStream
    dsimp only
    split
    · exact h
    · split
      · exact Array.mem_push.mpr (.inl (Journal.mem_append.mpr (.inl h)))
      · exact Journal.mem_append.mpr (.inl h)
  | openFile path =>
    unfold play
    dsimp only
    split
    · exact h
    · exact Journal.mem_append.mpr (.inl h)

theorem mem_journal_playAll {α : Type} {event : Event} (h : event ∈ stage.journal)
    (script : Script α) : event ∈ (stage.playAll setup script).1.journal := by
  induction script generalizing stage with
  | done result => exact h
  | ask step next ih =>
    have hplayed : event ∈ (stage.play setup step).1.journal := mem_journal_play h step
    rw [playAll]
    generalize stage.play setup step = played at hplayed
    obtain ⟨later, failure⟩ := played
    cases failure with
    | none => exact ih () hplayed
    | some failure => exact hplayed

/-- **A script is played to its end, or a sink fails.** -/
theorem Roomy.playAll_fault {α : Type} (h : stage.Roomy) (hopener : setup.opener.External)
    (hcapacity : 8 ≤ setup.capacity) {script : Script α}
    (hsteps : ∀ bytes, .scalar bytes ∈ script.steps → bytes.length ≤ 8) :
    ((∀ event, .record event ∈ script.steps → event ∈ (stage.playAll setup script).1.journal) ∧
        (stage.playAll setup script).2 = script.outcome) ∨
      ∃ error, error.External ∧ (stage.playAll setup script).2 = .error error := by
  induction script generalizing stage with
  | done result =>
    refine .inl ⟨fun event hevent => ?_, rfl⟩
    cases hevent
  | ask step next ih =>
    obtain ⟨hroomy, hexternal⟩ := play_fault hopener hcapacity h fun bytes hbytes =>
      hsteps bytes (hbytes ▸ List.mem_cons_self)
    have hrecord : ∀ event, step = .record event →
        event ∈ (stage.play setup step).1.journal := by
      rintro event rfl
      exact Journal.mem_append.mpr (.inr (List.mem_singleton_self _))
    rw [playAll]
    generalize stage.play setup step = played at hroomy hexternal hrecord
    obtain ⟨later, failure⟩ := played
    cases failure with
    | some error => exact .inr ⟨error, hexternal error rfl, rfl⟩
    | none =>
      have hrest : ∀ bytes, .scalar bytes ∈ Script.steps (next ()) → bytes.length ≤ 8 :=
        fun bytes hbytes => hsteps bytes (List.mem_cons_of_mem _ hbytes)
      rcases ih () hroomy hrest with hend | hfault
      · refine .inl ⟨fun event hevent => ?_, hend.2⟩
        -- what this step wrote down is still there at the end
        rcases List.mem_cons.mp hevent with hhead | htail
        · exact mem_journal_playAll (hrecord event hhead.symm) (next ())
        · exact hend.1 event htail
      · exact .inr hfault

end Stage

namespace Script

variable {α : Type} (script : Script α) (setup : Setup) (before : List Event)

theorem result_play :
    (script.play setup before).result = ((Stage.empty.log before).playAll setup script).2 := rfl

theorem journal_play : (script.play setup before).journal =
    ((Stage.empty.log before).playAll setup script).1.journal :=
  Stage.journal_abandon _

end Script

end Write

/-! ## Answering a plan -/

namespace Read

/-- Whether a file that cannot be opened is reported as a failure of its source. -/
def SourceOpener.External (opener : SourceOpener) : Prop :=
  ∀ opened path error, opener opened path = .error error → error.External

namespace Stage

variable {setup : Setup}

theorem onStream_external {α : Type} (stage : Stage)
    {operation : ReadStream → Outcome ReadStream α}
    (hoperation : ∀ stream error, (operation stream).result = .error error → error.External)
    {error : Error} (h : (stage.onStream operation).1 = .error error) : error.External := by
  obtain ⟨journal, streams, current⟩ := stage
  cases current with
  | none =>
    cases h
    exact .inl rfl
  | some stream => exact hoperation stream error h

/-- A stage gives no error but those of sources. -/
theorem answer_external (hopener : setup.opener.External) (stage : Stage) (question : Question)
    {error : Error} (h : question.error? (stage.answer setup question).1 = some error) :
    error.External := by
  cases question with
  | openFile path =>
    have hopen := Plan.stops_reply h
    change (stage.openStream setup path).1 = _ at hopen
    unfold openStream at hopen
    split at hopen
    · next other hfail =>
      cases hopen
      exact hopener _ _ error hfail
    · cases hopen
  | await count =>
    exact onStream_external stage (fun _ _ => ReadStream.await_external) (Plan.stops_reply h)
  | fetch count =>
    exact onStream_external stage (fun stream => (ReadStream.fetch_outcome stream count).1)
      (Plan.stops_reply h)
  | read count =>
    exact onStream_external stage (fun _ _ => ReadStream.collect_external) (Plan.stops_reply h)
  | _ => cases h

theorem mem_journal_onStream {α : Type} {stage : Stage} {event : Event}
    (h : event ∈ stage.journal) (operation : ReadStream → Outcome ReadStream α) :
    event ∈ (stage.onStream operation).2.journal := by
  obtain ⟨journal, streams, current⟩ := stage
  cases current with
  | none => exact h
  | some stream => exact Journal.mem_append.mpr (.inl h)

/-- What was written down stays. -/
theorem mem_journal_answer {stage : Stage} {event : Event} (h : event ∈ stage.journal)
    (question : Question) : event ∈ (stage.answer setup question).2.journal := by
  cases question with
  | record other => exact Journal.mem_append.mpr (.inl h)
  | field path kind => exact Journal.mem_append.mpr (.inl h)
  | await count => exact mem_journal_onStream h _
  | fetch count => exact mem_journal_onStream h _
  | read count => exact mem_journal_onStream h _
  | position => exact h
  | closeFile path =>
    change event ∈ (stage.closeStream path).journal
    unfold closeStream
    split
    · exact h
    · exact Journal.mem_append.mpr (.inl (Array.mem_push.mpr (.inl h)))
  | openFile path =>
    change event ∈ (stage.openStream setup path).2.journal
    unfold openStream
    split
    · exact h
    · exact Journal.mem_append.mpr (.inl h)

theorem mem_journal_answerAll {α : Type} {stage : Stage} {event : Event}
    (h : event ∈ stage.journal) (plan : Plan α) :
    event ∈ (stage.answerAll setup plan).2.journal := by
  induction plan generalizing stage with
  | done result => exact h
  | ask question next ih => exact ih _ (mem_journal_answer h question)

/-- **A regular plan ends in no bad error**, if nothing external is bad and all callbacks that it
calls are among those that it may call. -/
theorem answerAll_fault {α : Type} {bad : Error → Prop} {allowed : Call → Prop}
    (hopener : setup.opener.External) (hbad : ∀ error, bad error → ¬error.External)
    {plan : Plan α} (h : plan.Regular bad allowed) (stage : Stage)
    (hcalls : ∀ call, .call call ∈ (stage.answerAll setup plan).2.journal → allowed call)
    {error : Error} (herror : (stage.answerAll setup plan).1 = .error error) : ¬bad error := by
  have hreply : ∀ (stage : Stage) (question : Question) error,
      question.error? (stage.answer setup question).1 = some error → ¬bad error :=
    fun stage question error hfail hmade =>
      hbad error hmade (answer_external hopener stage question hfail)
  induction h generalizing stage with
  | done hresult => exact hresult error herror
  | @number path label width next hnumeric _ ih =>
    -- the announcement gets no error, only the fetch behind it may
    refine ih _ (fun other hother => ?_) _ hcalls herror
    exact hreply (stage.answer setup (.field path label)).2 (.fetch width) other
      (congrArg failure? hother)
  | @other question next hquestion _ ih =>
    refine ih _ ?_ (fun other hother => hreply stage question other hother) _ hcalls herror
    -- a callback that is recorded now is in the journal at the end
    unfold Question.Calls
    split
    · refine hcalls _ (mem_journal_answerAll ?_ (next ()))
      exact Journal.mem_append.mpr (.inr (List.mem_singleton_self _))
    · trivial

theorem journal_abandon (stage : Stage) : stage.abandon.journal = stage.journal := by
  unfold abandon
  split <;> rfl

end Stage

namespace Plan

variable {α : Type} (plan : Plan α) (setup : Setup) (before : List Event)

theorem result_answer :
    (plan.answer setup before).result = ((Stage.empty.log before).answerAll setup plan).1 := rfl

theorem journal_answer : (plan.answer setup before).journal =
    ((Stage.empty.log before).answerAll setup plan).2.journal :=
  Stage.journal_abandon _

end Plan

end Read

end ByteLayout
