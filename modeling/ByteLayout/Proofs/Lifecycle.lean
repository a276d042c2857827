import ByteLayout.Proofs.Offering
import ByteLayout.Proofs.Truncation
import ByteLayout.Proofs.Writing

/-!
# One file at a time

While a script is played, every file that was put away is finished, and the sink of the file that is
open was offered bytes and nothing else (`Stage.Serves`). A step keeps this, and it gives every file
what the script has for it; or it fails, and then the play is over.

**Theorem (`Stage.playAll_serves`).** An orderly script is played so that the journal, as far as
sinks are concerned, lists their lives one after the other, of which all but the last are finished.

**Theorem (`Schema.write_one_at_a_time`).** So does every write pass, whatever its layout picks and
whatever its sinks do. At no moment are two sinks open, and nothing is opened after a failure.
-/

namespace ByteLayout

theorem Event.Own.handled?_eq_none {event : Event} (h : event.Own) : event.handled? = none := by
  cases event with
  | opened path => cases h
  | sink path event => cases h
  | _ => rfl

/-- A sink is opened. -/
def Event.opens : Event → Bool
  | opened _ => true
  | _ => false

/-- A sink is shut down. -/
def Event.shuts : Event → Bool
  | sink _ (.shutDown true) => true
  | _ => false

namespace Life

/-- Streams with some lives have their paths. -/
theorem paths_eq {lives : List Life} {streams : List WriteStream}
    (h : List.Forall₂ Life.Of lives streams) :
    streams.map WriteStream.path = lives.map Life.path := by
  induction h with
  | nil => rfl
  | cons hlife _ ih => exact congrArg₂ List.cons hlife.path ih

theorem exists_of_getElem? {lives : List Life} {streams : List WriteStream}
    (h : List.Forall₂ Life.Of lives streams) {index : Nat} {stream : WriteStream}
    (hstream : streams[index]? = some stream) :
    ∃ life, lives[index]? = some life ∧ life.Of stream := by
  obtain ⟨hlength, hof⟩ := List.forall₂_iff_get.mp h
  obtain ⟨hindex, rfl⟩ := List.getElem?_eq_some_iff.mp hstream
  exact ⟨_, List.getElem?_eq_getElem (hlength ▸ hindex), hof index (hlength ▸ hindex) hindex⟩

/-! ## Moments of a pass -/

theorem count_opens (life : Life) : life.events.countP Event.opens = 1 := by
  have hdeeds : ∀ deeds : List SinkEvent,
      (deeds.map (Event.sink life.path)).countP Event.opens = 0 := by
    intro deeds
    refine List.countP_eq_zero.mpr fun event hevent => ?_
    obtain ⟨deed, -, rfl⟩ := List.mem_map.mp hevent
    exact Bool.false_ne_true
  unfold events served
  rw [List.cons_append, List.countP_cons, List.countP_append, hdeeds, hdeeds]
  rfl

theorem count_shuts {life : Life} (h : life.ending = .finished) :
    1 ≤ life.events.countP Event.shuts := by
  unfold events
  rw [h, List.countP_append]
  exact Nat.le_add_left _ _

/-- While sinks live one after the other, at most one is open. -/
theorem count_opens_le {lives : List Life} (h : ∀ life ∈ lives.dropLast, life.ending = .finished)
    {before : List Event} (hbefore : before <+: lives.flatMap Life.events) :
    before.countP Event.opens ≤ before.countP Event.shuts + 1 := by
  induction lives generalizing before with
  | nil =>
    rw [List.flatMap_nil, List.prefix_nil] at hbefore
    rw [hbefore]
    exact Nat.zero_le _
  | cons life rest ih =>
    obtain ⟨after, hafter⟩ := hbefore
    rw [List.flatMap_cons] at hafter
    rcases List.append_eq_append_iff.mp hafter with ⟨more, hmore, -⟩ | ⟨more, rfl, hmore⟩
    -- in the midst of the first life
    · have hopens := life.count_opens
      rw [hmore, List.countP_append] at hopens
      omega
    · cases rest with
      | nil =>
        obtain rfl := (List.append_eq_nil_iff.mp hmore.symm).1
        rw [List.append_nil, life.count_opens]
        exact Nat.le_add_left _ _
      | cons next others =>
        rw [List.dropLast_cons_of_ne_nil (List.cons_ne_nil next others)] at h
        have hopens := life.count_opens
        have hshuts := count_shuts (h life List.mem_cons_self)
        have hmoment := ih (fun other hother => h other (List.mem_cons_of_mem _ hother))
          ⟨after, hmore.symm⟩
        rw [List.countP_append, List.countP_append]
        omega

end Life

/-- What is counted is among what was done to sinks. -/
theorem Event.countP_handled {what : Event → Bool} (hwhat : ∀ event : Event,
    event.handled? = none → what event = false) (events : List Event) :
    (events.filterMap handled?).countP what = events.countP what := by
  rw [List.countP_filterMap]
  congr 1
  funext event
  cases event with
  | opened path => rfl
  | sink path event => rfl
  | _ => exact (hwhat _ rfl).symm

namespace Write

/-- Whether a step writes nothing down but what is the pass's own. -/
def Step.Own : Step → Prop
  | .record event => event.Own
  | _ => True

/-- Whether all that a script writes down is the pass's own. -/
def Script.Own {α : Type} (script : Script α) : Prop := ∀ step ∈ script.steps, step.Own

theorem Script.own_step {step : Step} (h : step.Own) : (Script.step step).Own := by
  intro other hother
  obtain rfl := List.mem_singleton.mp hother
  exact h

theorem Script.own_closed : Script.Closed fun _ script => script.Own where
  done _ step hstep := by
    rw [steps_ofExcept] at hstep
    cases hstep
  bind {_ _ _ f} h hf step hstep := by
    rcases mem_steps_bind.mp hstep with hstep | ⟨a, -, hstep⟩
    · exact h step hstep
    · exact hf a step hstep
  event h := own_step h
  field _ _ := own_step trivial
  scalar _ := own_step trivial
  payload _ := own_step trivial

theorem Pass.own_closed (pass : Pass) :
    pass.Closed (fun _ script => script.Own) fun _ => True where
  toClosed := Script.own_closed
  withOrder _ _ := trivial
  inField _ _ := trivial
  item _ _ := trivial
  enterDir _ _ := trivial
  file relative record _ _ hcontent :=
    pass.inFile_closed Script.own_closed _ record (fun _ => Script.own_step trivial)
      (fun _ => Script.own_step trivial) relative fun inner record => hcontent inner record trivial

/-! ## How a pass ends -/

/-- Why a pass was stopped, with the lives of its sinks: the last one failed, or the sink of the
next file could not be opened. -/
inductive Stopped (opener : SinkOpener) (files : List (String × List UInt8)) (lives : List Life) :
    Error → Prop
  | sinkFailed (earlier : List Life) (last : Life) (failure : IoError) :
    lives = earlier ++ [last] → last.ending ≠ .finished →
    (∀ known, last.ending.error? = some known → failure = known) →
    Stopped opener files lives (.io last.path failure)
  | refused (path : String) (content : List UInt8) (error : Error) :
    (∀ life ∈ lives, life.ending = .finished) →
    lives.map Life.file ++ [(path, content)] <+: files →
    opener (lives.map Life.path) path = .error error →
    Stopped opener files lives error

/-- How a pass ended, given the files that it has and the lives of its sinks: all that there was to
do was done, or it was stopped. -/
inductive Ended {α : Type} (opener : SinkOpener) (outcome : Except Error α)
    (files : List (String × List UInt8)) (lives : List Life) : Except Error α → Prop
  | complete : lives.map Life.file = files →
    (∀ life ∈ lives, life.ending = .finished ∨ life.ending = .left) →
    (∀ a, outcome = .ok a → ∀ life ∈ lives, life.ending = .finished) →
    Ended opener outcome files lives outcome
  | stopped (error : Error) : lives.map Life.file <+: files → Stopped opener files lives error →
    Ended opener outcome files lives (.error error)

/-- However a pass ended, its sinks stand for the first of its files. -/
theorem Ended.isPrefix {α : Type} {opener : SinkOpener} {outcome result : Except Error α}
    {files : List (String × List UInt8)} {lives : List Life}
    (h : Ended opener outcome files lives result) : lives.map Life.file <+: files := by
  cases h with
  | complete hfiles => exact hfiles ▸ List.prefix_rfl
  | stopped error hfiles => exact hfiles

namespace Stage

variable {setup : Setup} {stage : Stage} {lives : List Life} {offers : List Nat}

/-- The files with their bytes, those put away given by their lives, after the steps that are still
to come. -/
def files (stage : Stage) (lives : List Life) (steps : List Step) :
    List (String × List UInt8) :=
  lives.map Life.file ++
    (stage.current.toList.map fun stream =>
      (stream.path, stream.accepted ++ Step.content [] steps)) ++
    Step.files [] steps

/-- A stage in which nothing has failed: what was put away is finished, and the sink of what is open
was only offered bytes. -/
structure Serves (stage : Stage) (inFile : Bool) (lives : List Life) (offers : List Nat) :
    Prop where
  isSome : stage.current.isSome = inFile
  current : ∀ stream ∈ stage.current, stream.Serving offers ∧ 8 ≤ stream.capacity
  streams : List.Forall₂ Life.Of lives stage.streams.toList
  finished : ∀ life ∈ lives, life.ending = .finished
  journal : stage.journal.view Event.handled? = lives.flatMap Life.events ++
    stage.current.toList.flatMap fun stream => Life.served stream.path offers

/-- A stage that is over. The journal tells the lives of the sinks one after the other. -/
structure Told (stage : Stage) (lives : List Life) : Prop where
  journal : stage.journal.view Event.handled? = lives.flatMap Life.events
  streams : List.Forall₂ Life.Of lives stage.abandon.streams.toList
  finished : ∀ life ∈ lives.dropLast, life.ending = .finished

theorem Serves.current_eq_none (h : stage.Serves false lives offers) : stage.current = none :=
  Option.not_isSome_iff_eq_none.mp (by rw [h.isSome]; exact Bool.false_ne_true)

theorem Serves.current_eq_some (h : stage.Serves true lives offers) :
    ∃ stream, stage.current = some stream ∧ stream.Serving offers ∧ 8 ≤ stream.capacity := by
  obtain ⟨stream, hstream⟩ := Option.isSome_iff_exists.mp h.isSome
  exact ⟨stream, hstream, h.current stream hstream⟩

theorem serves_empty (events : List Event) (h : events.filterMap Event.handled? = []) :
    (Stage.empty.log events).Serves false [] [] := by
  refine ⟨rfl, ?_, .nil, List.forall_mem_nil _, ?_⟩
  · intro stream hstream
    cases hstream
  · show Journal.view _ (#[] ++ events) = _
    rw [Journal.view_append, h]
    rfl

/-- The paths of what was put away. -/
theorem Serves.openedPaths_eq {inFile : Bool} (h : stage.Serves inFile lives offers) :
    stage.openedPaths = lives.map Life.path :=
  Life.paths_eq h.streams

/-- Nothing is open any more. -/
theorem Serves.told {inFile : Bool} (h : stage.Serves inFile lives offers)
    (hcurrent : stage.current = none) : stage.Told lives := by
  refine ⟨?_, ?_, fun life hlife => h.finished life (List.dropLast_subset lives hlife)⟩
  · rw [h.journal, hcurrent]
    exact List.append_nil _
  · unfold abandon
    rw [hcurrent]
    exact h.streams

/-- The life of what is open is the last. -/
theorem Serves.told_last {inFile : Bool} (h : stage.Serves inFile lives offers) {last : Life}
    {later : Stage} {stream : WriteStream} {events : List Event}
    (hcurrent : stage.current.toList.flatMap (fun stream => Life.served stream.path offers) ++
      events.filterMap Event.handled? = last.events)
    (hlater : later = ⟨stage.journal ++ events, stage.streams, some stream⟩)
    (hlast : last.Of stream.abort) : later.Told (lives ++ [last]) := by
  subst hlater
  refine ⟨?_, ?_, ?_⟩
  · show Journal.view _ (stage.journal ++ events) = _
    rw [Journal.view_append, h.journal, List.append_assoc, hcurrent, List.flatMap_append,
      List.flatMap_singleton]
  · show List.Forall₂ _ _ (stage.streams.push stream.abort).toList
    rw [Array.toList_push]
    exact List.rel_append h.streams (.cons hlast .nil)
  · rw [List.dropLast_concat]
    exact h.finished

/-- What is open is put away, and its life is over. -/
theorem Serves.putAway (h : stage.Serves true lives offers) {last : Life} {journal : Journal}
    {stream : WriteStream} {more : List Event}
    (hcurrent : stage.current.toList.flatMap (fun stream => Life.served stream.path offers) ++
      more = last.events)
    (hjournal : journal.view Event.handled? = stage.journal.view Event.handled? ++ more)
    (hlast : last.Of stream) (hfinished : last.ending = .finished) :
    Serves ⟨journal, stage.streams.push stream, none⟩ false (lives ++ [last]) [] := by
  refine ⟨rfl, ?_, ?_, ?_, ?_⟩
  · intro other hother
    cases hother
  · show List.Forall₂ _ _ (stage.streams.push stream).toList
    rw [Array.toList_push]
    exact List.rel_append h.streams (.cons hlast .nil)
  · intro life hlife
    rcases List.mem_append.mp hlife with hlife | hlife
    · exact h.finished life hlife
    · rw [List.mem_singleton.mp hlife]
      exact hfinished
  · rw [hjournal, h.journal, List.append_assoc, hcurrent, List.flatMap_append,
      List.flatMap_singleton]
    exact (List.append_nil _).symm

/-! ## One step -/

/-- What came of a step: it was taken, and the files stay what they were to be; or it failed, and
then the stage is over. -/
inductive Advanced (setup : Setup) (files : List (String × List UInt8)) (rest : List Step)
    (after : Bool) : Stage × Option Error → Prop
  | taken {later : Stage} (lives : List Life) (offers : List Nat) :
    later.Serves after lives offers → later.files lives rest = files →
    Advanced setup files rest after (later, none)
  | stopped {later : Stage} (lives : List Life) (error : Error) :
    later.Told lives → lives.map Life.file <+: files → Stopped setup.opener files lives error →
    Advanced setup files rest after (later, some error)

theorem record_serves {inFile : Bool} (h : stage.Serves inFile lives offers) {event : Event}
    (hown : event.Own) (rest : List Step) :
    Advanced setup (stage.files lives (.record event :: rest)) rest inFile
      (stage.play setup (.record event)) := by
  refine .taken lives offers ⟨h.isSome, h.current, h.streams, h.finished, ?_⟩ rfl
  show Journal.view _ (stage.journal ++ [event]) = _
  rw [Journal.view_append, List.filterMap_cons, hown.handled?_eq_none, List.filterMap_nil,
    List.append_nil]
  exact h.journal

theorem field_serves (h : stage.Serves true lives offers) (path kind : String)
    (rest : List Step) :
    Advanced setup (stage.files lives (.field path kind :: rest)) rest true
      (stage.play setup (.field path kind)) := by
  refine .taken lives offers ⟨h.isSome, h.current, h.streams, h.finished, ?_⟩ rfl
  show Journal.view _ (stage.journal ++ [Event.trace _]) = _
  rw [Journal.view_append]
  exact (List.append_nil _).trans h.journal

/-- Bytes go to the open stream, which offers them to its sink sooner or later. -/
theorem onStream_serves (h : stage.Serves true lives offers) {step : Step} {rest : List Step}
    {operation : WriteStream → Outcome WriteStream Unit} {bytes : List UInt8}
    (hoperation : ∀ stream : WriteStream, stream.state.isOver = false → 8 ≤ stream.capacity →
      ∃ more, stream.Offers bytes more (operation stream))
    (hcontent : Step.content [] (step :: rest) = bytes ++ Step.content [] rest)
    (hfiles : Step.files [] (step :: rest) = Step.files [] rest) :
    Advanced setup (stage.files lives (step :: rest)) rest true (stage.onStream operation) := by
  obtain ⟨stream, hcurrent, hserving, hcapacity⟩ := h.current_eq_some
  obtain ⟨journal, streams, current⟩ := stage
  obtain rfl : current = some stream := hcurrent
  obtain ⟨more, hmore⟩ := hoperation stream hserving.live hcapacity
  rw [onStream_some]
  cases hresult : (operation stream).result with
  | ok a =>
    have haccepted := hmore.accepted a hresult
    refine .taken lives (offers ++ more) ⟨rfl, ?_, h.streams, h.finished, ?_⟩ ?_
    · intro later hlater
      obtain rfl := Option.some.inj hlater
      exact ⟨hserving.offers hmore hresult, hmore.capacity ▸ hcapacity⟩
    · show Journal.view _ (journal ++ (operation stream).events) = _
      rw [Journal.view_append, h.journal, hmore.events, List.append_assoc]
      simp only [Option.toList_some, List.flatMap_singleton, hmore.path, Life.served_append]
    · unfold files
      rw [hcontent, hfiles]
      simp only [Option.toList_some, List.map_cons, List.map_nil, hmore.path, haccepted,
        List.append_assoc]
  | error error =>
    obtain ⟨-, failure, rfl⟩ := hmore.failed error hresult
    have hprefix : stream.accepted ++ bytes <+:
        stream.accepted ++ Step.content [] (step :: rest) := by
      rw [hcontent, ← List.append_assoc]
      exact List.prefix_append _ _
    have hlife := (hserving.failed hmore hresult hprefix).abort
    refine .stopped _ _ (h.told_last ?_ rfl hlife) ?_ (.sinkFailed _ _ failure rfl ?_ ?_)
    · rw [hmore.events]
      simp only [Option.toList_some, List.flatMap_singleton, Life.events, Life.served_append,
        SinkEnding.deeds, List.map_nil, List.append_nil]
    · unfold files
      rw [List.map_append]
      exact List.prefix_append _ _
    · exact SinkEnding.noConfusion
    · intro known hknown
      cases hknown

theorem openFile_serves (hcapacity : 8 ≤ setup.capacity) (h : stage.Serves false lives offers)
    (path : String) (rest : List Step) :
    Advanced setup (stage.files lives (.openFile path :: rest)) rest true
      (stage.play setup (.openFile path)) := by
  have hcurrent := h.current_eq_none
  have hfiles : stage.files lives (.openFile path :: rest) =
      lives.map Life.file ++ (path, Step.content [] rest) :: Step.files [] rest := by
    unfold files
    rw [hcurrent, Option.toList_none, List.map_nil, List.append_nil]
    rfl
  rw [hfiles]
  unfold play
  dsimp only
  cases hopen : setup.opener stage.openedPaths path with
  | error error =>
    refine .stopped lives error (h.told hcurrent) (List.prefix_append _ _)
      (.refused path (Step.content [] rest) error h.finished ?_ ?_)
    · exact ⟨Step.files [] rest, by rw [List.append_assoc]; rfl⟩
    · rw [← h.openedPaths_eq]
      exact hopen
  | ok behaviour =>
    refine .taken lives [] ⟨rfl, ?_, h.streams, h.finished, ?_⟩ ?_
    · intro stream hstream
      obtain rfl := Option.some.inj hstream
      refine ⟨WriteStream.serving_create _ _ _, ?_⟩
      rw [WriteStream.capacity_create]
      exact Nat.le_trans hcapacity (Nat.le_max_left _ _)
    · show Journal.view _ (stage.journal ++ [Event.opened path, _]) = _
      rw [Journal.view_append, h.journal, hcurrent]
      simp [Event.handled?, Life.served, WriteStream.create]
    · unfold files
      simp only [Option.toList_some, List.map_cons, List.map_nil, WriteStream.accepted_create,
        List.nil_append, List.append_assoc, List.cons_append]
      rfl

theorem closeFile_serves (h : stage.Serves true lives offers) (path : String)
    (rest : List Step) :
    Advanced setup (stage.files lives (.closeFile path :: rest)) rest false
      (stage.play setup (.closeFile path)) := by
  obtain ⟨stream, hcurrent, hserving, -⟩ := h.current_eq_some
  obtain ⟨journal, streams, current⟩ := stage
  obtain rfl : current = some stream := hcurrent
  obtain ⟨more, ending, hends⟩ := WriteStream.finish_ends hserving
  have hfiles : files ⟨journal, streams, some stream⟩ lives (.closeFile path :: rest) =
      (lives ++ [Life.mk stream.path stream.accepted (offers ++ more) ending]).map Life.file ++
        Step.files [] rest := by
    unfold files
    simp only [Option.toList_some, List.map_cons, List.map_nil, List.map_append, Step.content,
      List.append_nil]
    rfl
  have hevents : (some stream).toList.flatMap (fun stream => Life.served stream.path offers) ++
      stream.finish.events.filterMap Event.handled? =
        Life.events ⟨stream.path, stream.accepted, offers ++ more, ending⟩ := by
    rw [Option.toList_some, List.flatMap_singleton, hends.events, ← List.append_assoc,
      ← Life.served_append]
    rfl
  rw [hfiles]
  show Advanced _ _ _ _ (closeStream ⟨journal, streams, some stream⟩ path)
  cases hresult : stream.finish.result with
  | ok total =>
    obtain rfl := hends.ok total hresult
    rw [closeStream_ok hresult]
    refine .taken _ [] (h.putAway hevents ?_ hends.life rfl) ?_
    · rw [Journal.view_push, Journal.view_append]
      exact List.append_nil _
    · unfold files
      rw [Option.toList_none, List.map_nil, List.append_nil]
  | error error =>
    obtain ⟨hunfinished, failure, rfl, hfailure⟩ := hends.error error hresult
    rw [closeStream_error hresult]
    exact .stopped _ _ (h.told_last hevents rfl hends.life.abort) (List.prefix_append _ _)
      (.sinkFailed _ _ failure rfl hunfinished hfailure)

/-- **A step in its place is taken, or ends the play.** -/
theorem play_serves {inFile after : Bool} {step : Step} (hcapacity : 8 ≤ setup.capacity)
    (h : stage.Serves inFile lives offers) (hown : step.Own)
    (hnext : step.next inFile = some after) (rest : List Step) :
    Advanced setup (stage.files lives (step :: rest)) rest after (stage.play setup step) := by
  cases step with
  | record event =>
    obtain rfl := Option.some.inj hnext
    exact record_serves h hown rest
  | openFile path =>
    cases inFile with
    | true => cases hnext
    | false =>
      obtain rfl := Option.some.inj hnext
      exact openFile_serves hcapacity h path rest
  | field path kind =>
    cases inFile with
    | false => cases hnext
    | true =>
      obtain rfl := Option.some.inj hnext
      exact field_serves h path kind rest
  | scalar bytes =>
    simp only [Step.next, Option.ite_none_right_eq_some, Option.some.injEq] at hnext
    obtain ⟨⟨rfl, hlength⟩, rfl⟩ := hnext
    exact onStream_serves h (fun stream hlive hroom =>
      stream.put_offers hlive (Nat.le_trans hlength hroom)) rfl rfl
  | payload bytes =>
    cases inFile with
    | false => cases hnext
    | true =>
      obtain rfl := Option.some.inj hnext
      exact onStream_serves h (fun stream hlive _ => stream.copy_offers hlive bytes) rfl rfl
  | closeFile path =>
    cases inFile with
    | false => cases hnext
    | true =>
      obtain rfl := Option.some.inj hnext
      exact closeFile_serves h path rest

/-! ## A whole script -/

/-- When there is nothing left to do, the lives of all sinks are known; that of an open one breaks
off. -/
theorem Serves.ended {α : Type} {inFile : Bool} (h : stage.Serves inFile lives offers)
    {outcome : Except Error α} (hend : ∀ a, outcome = .ok a → inFile = false) :
    ∃ all, stage.Told all ∧ Ended setup.opener outcome (stage.files lives []) all outcome := by
  cases hcurrent : stage.current with
  | none =>
    refine ⟨lives, h.told hcurrent, .complete ?_ (fun life hlife => .inl (h.finished life hlife))
      fun _ _ => h.finished⟩
    unfold files
    rw [hcurrent]
    simp [Step.files]
  | some stream =>
    obtain ⟨hserving, -⟩ := h.current stream hcurrent
    obtain ⟨journal, streams, current⟩ := stage
    obtain rfl : current = some stream := hcurrent
    have hlife := hserving.left (List.prefix_append _ stream.buffer.bytes)
    have htold : Told ⟨journal, streams, some stream⟩ _ :=
      h.told_last (show _ ++ [].filterMap Event.handled? = _ from List.append_nil _) rfl hlife
    refine ⟨_, htold, .complete ?_ ?_ ?_⟩
    · unfold files WriteStream.accepted
      simp [Step.files, Step.content, Life.file]
    · intro life hlife
      rcases List.mem_append.mp hlife with hlife | hlife
      · exact .inl (h.finished life hlife)
      · rw [List.mem_singleton.mp hlife]
        exact .inr rfl
    -- a script that ends well leaves no file open
    · intro a ha
      cases hend a ha
      cases h.isSome

/-- **An orderly script serves its sinks one after the other**, up to its end or up to the first
failure. -/
theorem playAll_serves {α : Type} {inFile last : Bool} (hcapacity : 8 ≤ setup.capacity)
    (script : Script α) (h : stage.Serves inFile lives offers)
    (hown : script.Own)
    (hlast : Step.nextAll inFile script.steps = some last)
    (hend : ∀ a, script.outcome = .ok a → last = false) :
    ∃ all, (stage.playAll setup script).1.Told all ∧
      Ended setup.opener script.outcome (stage.files lives script.steps) all
        (stage.playAll setup script).2 := by
  induction script generalizing stage inFile lives offers with
  | done result =>
    obtain rfl := Option.some.inj hlast
    exact h.ended hend
  | ask step next ih =>
    change Step.nextAll inFile (step :: Script.steps (next ())) = some last at hlast
    rw [Step.nextAll_cons] at hlast
    obtain ⟨after, hafter, hrest⟩ := Option.bind_eq_some_iff.mp hlast
    have hstep := play_serves hcapacity h (hown step List.mem_cons_self) hafter
      (Script.steps (next ()))
    have hown' : Script.Own (next ()) := fun other hother =>
      hown other (List.mem_cons_of_mem _ hother)
    rw [playAll]
    cases hplay : stage.play setup step with | mk later failure
    rw [hplay] at hstep
    cases hstep with
    | taken more offers' hserves hfiles =>
      obtain ⟨all, htold, hended⟩ := ih () hserves hown' hrest hend
      rw [hfiles] at hended
      exact ⟨all, htold, hended⟩
    | stopped more error htold hfiles hstopped =>
      exact ⟨more, htold, .stopped error hfiles hstopped⟩

end Stage

/-! ## Whole passes -/

/-- What became of the sinks of a whole pass, told by their lives. -/
structure Report.Served {α : Type} (pass : Report α) (opener : SinkOpener) (script : Script α)
    (lives : List Life) : Prop where
  /-- The sinks lived one after the other, and nothing else was done to any sink. -/
  journal : pass.journal.view Event.handled? = lives.flatMap Life.events
  streams : List.Forall₂ Life.Of lives pass.streams.toList
  /-- Before the next file was opened, the sink was finished. -/
  finished : ∀ life ∈ lives.dropLast, life.ending = .finished
  ended : Ended opener script.outcome (Step.files [] script.steps) lives pass.result

theorem Script.play_served {α : Type} {setup : Setup} (hcapacity : 8 ≤ setup.capacity)
    {script : Script α} (hown : script.Own) (horderly : Orderly false false script)
    {before : List Event} (hbefore : before.filterMap Event.handled? = []) :
    ∃ lives, (script.play setup before).Served setup.opener script lives := by
  obtain ⟨last, hlast, hend⟩ := horderly
  obtain ⟨lives, htold, hended⟩ :=
    Stage.playAll_serves hcapacity script (Stage.serves_empty before hbefore) hown hlast hend
  refine ⟨lives, ?_, htold.streams, htold.finished, hended⟩
  show Journal.view _ (Stage.abandon _).journal = _
  rw [Stage.journal_abandon]
  exact htold.journal

/-- **At no moment are two sinks open.** -/
theorem Report.Served.moment {α : Type} {pass : Report α} {opener : SinkOpener}
    {script : Script α} {lives : List Life} (h : pass.Served opener script lives)
    {before : List Event} (hbefore : before <+: pass.journal.toList) :
    before.countP Event.opens ≤ before.countP Event.shuts + 1 := by
  have hmoment : before.filterMap Event.handled? <+: lives.flatMap Life.events :=
    h.journal ▸ hbefore.filterMap Event.handled?
  have hcount := Life.count_opens_le h.finished hmoment
  rw [Event.countP_handled, Event.countP_handled] at hcount
  · exact hcount
  · intro event hevent
    cases event with
    | sink path event => cases hevent
    | _ => rfl
  · intro event hevent
    cases event with
    | opened path => cases hevent
    | _ => rfl

/-- When a pass ends well, all its files were finished. -/
theorem Report.Served.closed {α : Type} {pass : Report α} {opener : SinkOpener}
    {script : Script α} {lives : List Life} (h : pass.Served opener script lives) {a : α}
    (hok : pass.result = .ok a) :
    pass.streams.toList.length = (Step.files [] script.steps).length ∧
      ∀ stream ∈ pass.streams.toList, stream.state = .closed := by
  have hended := h.ended
  rw [hok] at hended
  generalize script.outcome = outcome at hended
  cases hended with
  | complete hfiles _ hfinished =>
    refine ⟨?_, fun stream hstream => ?_⟩
    · rw [← hfiles, List.length_map]
      exact h.streams.length_eq.symm
    · obtain ⟨index, hindex⟩ := List.mem_iff_getElem?.mp hstream
      obtain ⟨life, hlife, hof⟩ := Life.exists_of_getElem? h.streams hindex
      rw [hof.state, hfinished a rfl life (List.mem_of_getElem? hlife)]
      rfl

/-- A file that was finished holds the bytes that the script has for it. -/
theorem Report.Served.content {α : Type} {pass : Report α} {opener : SinkOpener}
    {script : Script α} {lives : List Life} (h : pass.Served opener script lives) {index : Nat}
    {stream : WriteStream} (hstream : pass.streams.toList[index]? = some stream)
    (hclosed : stream.state = .closed) :
    (Step.files [] script.steps)[index]? = some (stream.path, stream.sink.data.toList) := by
  obtain ⟨life, hlife, hof⟩ := Life.exists_of_getElem? h.streams hstream
  have hfile : (lives.map Life.file)[index]? = some life.file := by
    rw [List.getElem?_map, hlife, Option.map_some]
  have hending : life.ending ≠ .left := by
    intro hleft
    have hstate := hof.state
    rw [hclosed, hleft] at hstate
    cases hstate
  obtain ⟨rest, hrest⟩ := h.ended.isPrefix
  rw [← hrest, List.getElem?_append_left (List.getElem?_eq_some_iff.mp hfile).1, hfile, Life.file,
    hof.path, (hof.complete hending).1]

end Write

open Write

/-- What became of the sinks of a write pass. -/
theorem Schema.write_served (schema : Schema) (provider : Provider) (options : Options)
    (opener : SinkOpener) : ∃ lives,
      (schema.write provider options opener).Served opener (schema.writeScript provider options)
        lives := by
  have hcapacity : 8 ≤ options.clamped.bufferSize :=
    Nat.le_trans (by decide) options.minBufferSize_le_clamped
  have hbefore : (options.warnings .write).filterMap Event.handled? = [] := by
    unfold Options.warnings
    split <;> rfl
  exact Script.play_served hcapacity (schema.writeScript_closed Pass.own_closed provider options)
    (schema.writeScript_orderly provider options) hbefore

/-- **Files are written one at a time.** In every write pass, whatever its layout picks, its
provider holds and its sinks do, the sinks live one after the other, and at no moment are two of
them open. All but the last are finished: the sink accepted all that it was offered, was flushed
once and then shut down, before the next was opened. If the pass ends well, so is the last; if not,
the failure is what happened last, and the last sink was asked to flush or to shut down only after
it had accepted all the bytes of its file. -/
theorem Schema.write_one_at_a_time (schema : Schema) (provider : Provider) (options : Options)
    (opener : SinkOpener) :
    let pass := schema.write provider options opener
    let script := schema.writeScript provider options
    ∃ lives : List Life,
      pass.journal.view Event.handled? = lives.flatMap Life.events ∧
      List.Forall₂ Life.Of lives pass.streams.toList ∧
      (∀ life ∈ lives.dropLast, life.ending = .finished) ∧
      Ended opener script.outcome (Step.files [] script.steps) lives pass.result ∧
      ∀ before, before <+: pass.journal.toList →
        before.countP Event.opens ≤ before.countP Event.shuts + 1 := by
  intro pass script
  obtain ⟨lives, hserved⟩ := schema.write_served provider options opener
  exact ⟨lives, hserved.journal, hserved.streams, hserved.finished, hserved.ended,
    fun _ hbefore => hserved.moment hbefore⟩

end ByteLayout
