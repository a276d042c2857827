import ByteLayout.Proofs.Lifecycle
import Mathlib.Data.List.Chain

/-!
# Full batches

A write stream hands its buffer over when a scalar does not fit any more, when a payload has filled
it and goes on, or when its file is finished. A scalar has at most eight bytes, so in the first case
at most seven bytes of the buffer are unused, and in the second none.

`Stage.flushes` is the ledger of a play: every flush with the step that made it.

**Theorem (`put_batches`, `copy_batches`).** In front of whatever sink, adding a scalar or a payload
only makes a stream hand over batches that are full up to seven bytes.

**Theorem (`Schema.write_batches`).** In every write pass no flush is empty or larger than the
buffer, every flush but the one that finishes a file leaves at most seven bytes of the buffer
unused, and the number of flushes of a file is bounded accordingly.
-/

namespace ByteLayout

namespace Event

/-- How many bytes a sink was offered at once. -/
def offered? : Event → Option Nat
  | sink _ (.offered size) => some size
  | _ => none

/-- Whether an event, if it is an offer, is one of so many bytes at least. -/
def Ample (least : Nat) (event : Event) : Prop := ∀ size ∈ event.offered?, least ≤ size

/-- Whether an offer comes directly before another only if it is ample. -/
def Spaced (least : Nat) (events : List Event) : Prop :=
  events.IsChain fun first second => first.Ample least ∨ second.offered? = none

variable {least : Nat}

theorem offered?_eq_none {event : Event} (h : event.handled? = none) : event.offered? = none := by
  cases event with
  | sink path event => cases h
  | _ => rfl

theorem offered?_of_handled? {event shown : Event} (h : event.handled? = some shown) :
    event.offered? = shown.offered? := by
  cases event with
  | opened path => rw [← Option.some.inj h]
  | sink path event => rw [← Option.some.inj h]
  | _ => cases h

theorem spaced_of_ample {events : List Event} (h : ∀ event ∈ events, event.Ample least) :
    Spaced least events :=
  (List.pairwise_of_forall_mem_list fun _ hfirst _ _ => .inl (h _ hfirst)).isChain

/-- Whatever was offered before, more may follow an ample offer. -/
theorem Spaced.append {first second : List Event} (h : Spaced least first)
    (h' : Spaced least second) (hlast : ∀ event ∈ first.getLast?, event.Ample least) :
    Spaced least (first ++ second) :=
  List.IsChain.append h h' fun _ hevent _ _ => .inl (hlast _ hevent)

/-- What is no offer may follow anything. -/
theorem Spaced.append_quiet {first second : List Event} (h : Spaced least first)
    (h' : ∀ event ∈ second, event.offered? = none) : Spaced least (first ++ second) := by
  refine List.IsChain.append h ?_ fun _ _ _ hevent => .inr (h' _ (List.mem_of_mem_head? hevent))
  exact (List.pairwise_of_forall_mem_list fun _ _ _ hsecond => .inr (h' _ hsecond)).isChain

end Event

namespace WriteStream

variable {α β : Type} {stream : WriteStream}

/-- An operation that keeps the capacity, and whose offers have at least so many bytes; none is
empty or larger than the buffer. -/
structure Batches (stream : WriteStream) (least : Nat) (outcome : Outcome WriteStream α) :
    Prop where
  capacity : outcome.stream.capacity = stream.capacity
  sizes : ∀ event ∈ outcome.events, ∀ size ∈ event.offered?,
    least ≤ size ∧ 0 < size ∧ size ≤ stream.capacity

theorem batches_nil {least : Nat} {later : WriteStream} (result : Except Error α)
    (hcapacity : later.capacity = stream.capacity) : Batches stream least ⟨result, later, []⟩ :=
  ⟨hcapacity, fun _ hevent => by cases hevent⟩

theorem Batches.bind {least : Nat} {outcome : Outcome WriteStream α}
    {f : WriteStream → α → Outcome WriteStream β} (h : Batches stream least outcome)
    (hf : ∀ a, Batches outcome.stream least (f outcome.stream a)) :
    Batches stream least (outcome.bind f) := by
  unfold Outcome.bind
  cases outcome.result with
  | error error => exact ⟨h.capacity, h.sizes⟩
  | ok a =>
    refine ⟨(hf a).capacity.trans h.capacity, fun event hevent => ?_⟩
    rcases List.mem_append.mp hevent with hevent | hevent
    · exact h.sizes event hevent
    · exact h.capacity ▸ (hf a).sizes event hevent

theorem Batches.mono {fewer least : Nat} {outcome : Outcome WriteStream α}
    (h : Batches stream least outcome) (hle : fewer ≤ least) : Batches stream fewer outcome :=
  ⟨h.capacity, fun event hevent size hsize =>
    let ⟨hleast, hsizes⟩ := h.sizes event hevent size hsize
    ⟨Nat.le_trans hle hleast, hsizes⟩⟩

/-- What holds of a stream in use holds of one that refuses everything. -/
theorem Batches.live {least : Nat} {f : WriteStream → Outcome WriteStream α}
    (h : Batches stream least (f stream)) : Batches stream least (stream.live f) := by
  unfold WriteStream.live
  split
  · exact batches_nil _ rfl
  · exact h

/-! ## Flushing -/

theorem drain_batches {least : Nat} (hleast : least ≤ stream.buffer.size)
    (hempty : 0 < stream.buffer.size) : Batches stream least stream.drain := by
  obtain ⟨sink, buffer, flushed, state, path⟩ := stream
  have hsize : ∀ size ∈ (Event.sink path (.offered buffer.size)).offered?,
      least ≤ size ∧ 0 < size ∧ size ≤ buffer.capacity := by
    intro size hsize
    obtain rfl := Option.some.inj hsize
    exact ⟨hleast, hempty, buffer.size_le⟩
  unfold drain
  dsimp only
  split
  · refine ⟨rfl, fun event hevent => ?_⟩
    obtain rfl := List.mem_singleton.mp hevent
    exact hsize
  · refine ⟨rfl, fun event hevent => ?_⟩
    rcases List.mem_cons.mp hevent with rfl | hevent
    · exact hsize
    · obtain rfl := List.mem_singleton.mp hevent
      intro size hnone
      cases hnone

/-- A flush hands over what is buffered. -/
theorem flush_batches {least : Nat} (hleast : least ≤ stream.buffer.size) :
    Batches stream least stream.flush := by
  refine Batches.live ?_
  split
  · exact batches_nil _ rfl
  · next hempty =>
    refine drain_batches hleast (Nat.pos_of_ne_zero fun hzero => hempty ?_)
    exact beq_iff_eq.mpr hzero

/-- A flush hands over at most one batch. -/
theorem spaced_flush (least : Nat) :
    Event.Spaced least (stream.flush.events.filterMap Event.handled?) := by
  have hdrain : Event.Spaced least (stream.drain.events.filterMap Event.handled?) := by
    unfold drain
    dsimp only
    split
    · exact List.IsChain.singleton _
    · exact List.IsChain.singleton _
  unfold flush live
  split
  · exact List.IsChain.nil
  · dsimp only
    split
    · exact List.IsChain.nil
    · exact hdrain

/-! ## Scalars and payloads -/

/-- **A scalar makes a stream hand over a batch with at most seven bytes missing.** -/
theorem put_batches {bytes : List UInt8} (hlength : bytes.length ≤ 8) :
    Batches stream (stream.capacity - 7) (stream.put bytes) := by
  have hfreed : Batches stream (stream.capacity - 7) (stream.freed bytes.length) := by
    unfold freed
    split
    · next hroom =>
      refine flush_batches ?_
      unfold Buffer.room at hroom
      unfold capacity
      omega
    · exact batches_nil _ rfl
  have hreserved : Batches stream (stream.capacity - 7) (stream.reserve bytes.length) := by
    refine Batches.live ?_
    split
    · exact batches_nil _ rfl
    · exact hfreed.bind fun _ => batches_nil _ rfl
  exact hreserved.bind fun _ => batches_nil _ rfl

theorem freedIfFull_batches : Batches stream stream.capacity stream.freedIfFull := by
  unfold freedIfFull
  split
  · next hfull => exact flush_batches (Nat.le_of_eq (beq_iff_eq.mp hfull).symm)
  · exact batches_nil _ rfl

theorem pump_batches (stream : WriteStream) (bytes : List UInt8) :
    Batches stream stream.capacity (stream.pump bytes []) := by
  match bytes with
  | [] =>
    rw [pump]
    exact batches_nil _ rfl
  | byte :: rest =>
    rw [pump_cons_eq_bind]
    refine freedIfFull_batches.bind fun _ => ?_
    rw [← freedIfFull_batches.capacity]
    unfold pour
    split
    · exact batches_nil _ rfl
    · next room _ =>
      obtain ⟨hcapacity, hsizes⟩ :=
        pump_batches (stream.freedIfFull.stream.fill (byte :: rest)) (rest.drop room)
      exact ⟨hcapacity, hsizes⟩
termination_by bytes.length
decreasing_by simp only [List.length_cons, List.length_drop]; omega

/-- **A payload makes a stream hand over full batches.** -/
theorem copy_batches (bytes : List UInt8) :
    Batches stream stream.capacity (stream.copy bytes) := by
  refine Batches.live ?_
  obtain ⟨hcapacity, hsizes⟩ := pump_batches { stream with state := .streaming } bytes
  exact ⟨hcapacity, hsizes⟩

/-! ## The end of a file -/

theorem offered?_close : ∀ event ∈ stream.close.events, event.offered? = none := by
  unfold close fail
  dsimp only
  cases stream.sink.flush.2 with
  | some error => simp [Event.offered?]
  | none => cases stream.sink.flush.1.shutDown.2 <;> simp [Event.offered?]

theorem capacity_close : stream.close.stream.capacity = stream.capacity := by
  unfold close fail
  dsimp only
  cases stream.sink.flush.2 with
  | some error => rfl
  | none => cases stream.sink.flush.1.shutDown.2 <;> rfl

theorem close_batches : Batches stream 0 stream.close := by
  refine ⟨capacity_close, fun event hevent size hsize => ?_⟩
  rw [offered?_close event hevent] at hsize
  cases hsize

/-- When a stream is finished it hands over what is left, of whatever size. -/
theorem finish_batches : Batches stream 0 stream.finish := by
  refine Batches.live ?_
  have hflush : Batches { stream with state := .finalizing } 0 _ := flush_batches (Nat.zero_le _)
  have hclose := hflush.bind (f := fun stream _ => stream.close) fun _ => close_batches
  exact ⟨hclose.capacity, hclose.sizes⟩

/-- When a stream is finished it hands over at most one batch. -/
theorem spaced_finish (least : Nat) :
    Event.Spaced least (stream.finish.events.filterMap Event.handled?) := by
  unfold finish live
  split
  · exact List.IsChain.nil
  · let closing : WriteStream := { stream with state := .finalizing }
    have hflush : Event.Spaced least (closing.flush.events.filterMap Event.handled?) :=
      spaced_flush least
    unfold Outcome.bind
    dsimp only
    split
    · exact hflush
    · rw [List.filterMap_append]
      refine hflush.append_quiet fun event hevent => ?_
      obtain ⟨shown, hshown, hhandled⟩ := List.mem_filterMap.mp hevent
      rw [← Event.offered?_of_handled? hhandled]
      exact offered?_close shown hshown

end WriteStream

namespace Life

/-- Offers of which only the last may be small are not many. -/
theorem length_le_of_isChain {least : Nat} {offers : List Nat}
    (h : offers.IsChain fun first _ => least ≤ first) :
    (offers.length - 1) * least ≤ offers.sum := by
  induction h with
  | nil => exact Nat.le_of_eq (Nat.zero_mul _)
  | singleton size => exact Nat.le_trans (Nat.le_of_eq (Nat.zero_mul _)) (Nat.zero_le _)
  | @cons_cons first second rest hfirst _ ih =>
    simp only [List.length_cons, List.sum_cons, Nat.add_sub_cancel] at ih ⊢
    rw [Nat.add_mul, Nat.one_mul]
    omega

/-- The offers of a life are spaced as its events are. -/
theorem isChain_offers {least : Nat} {life : Life} (h : Event.Spaced least life.events) :
    life.offers.IsChain fun first _ => least ≤ first := by
  unfold events served at h
  rw [List.cons_append] at h
  have hoffers := List.IsChain.left_of_append (List.IsChain.tail h)
  rw [List.map_map, List.isChain_map] at hoffers
  refine hoffers.imp fun first second hspaced => ?_
  rcases hspaced with hample | hnone
  · exact hample first rfl
  · cases hnone

theorem exists_stream {lives : List Life} {streams : List WriteStream}
    (h : List.Forall₂ Life.Of lives streams) {life : Life} (hlife : life ∈ lives) :
    ∃ stream, life.Of stream := by
  induction h with
  | nil => cases hlife
  | cons hof _ ih =>
    rcases List.mem_cons.mp hlife with rfl | hlife
    · exact ⟨_, hof⟩
    · exact ih hlife

/-- A file took few flushes for the bytes that they handed over. -/
theorem length_offers_le {least : Nat} (hleast : 0 < least) {life : Life}
    (hspaced : Event.Spaced least life.events) :
    life.offers.length ≤ life.offers.sum / least + 1 := by
  have hsum := length_le_of_isChain (isChain_offers hspaced)
  have hdiv := (Nat.le_div_iff_mul_le hleast).mpr hsum
  omega

end Life

namespace Write

/-- A flush: the step that made it, and how many bytes it handed over. -/
structure Flush where
  step : Step
  size : Nat

/-- Whether a step finishes a file. -/
def Step.finishes : Step → Bool
  | closeFile _ => true
  | _ => false

/-- Whether a flush is neither empty nor larger than the buffer and, unless it finishes a file,
misses at most seven bytes. -/
def Flush.Fits (flush : Flush) (capacity : Nat) : Prop :=
  0 < flush.size ∧ flush.size ≤ capacity ∧
    (flush.step.finishes = false → capacity - 7 ≤ flush.size)

namespace Stage

/-- The flushes that a step makes, by the offers among the events that it writes down. -/
def flushesOf (setup : Setup) (stage : Stage) (step : Step) : List Flush :=
  let later := (stage.play setup step).1
  ((later.journal.toList.drop stage.journal.size).filterMap Event.offered?).map (Flush.mk step)

/-- The flushes of a play, in order. -/
def flushes {α : Type} (setup : Setup) (stage : Stage) : Script α → List Flush
  | .done _ => []
  | .ask step next =>
    stage.flushesOf setup step ++
      match stage.play setup step with
      | (later, none) => flushes setup later (next ())
      | (_, some _) => []

variable {setup : Setup} {stage : Stage}

/-- A stage whose open stream has the capacity of the setup, and in whose journal only the last
offer to a sink may miss more than seven bytes; the open stream has made no such offer. -/
structure Batched (setup : Setup) (stage : Stage) : Prop where
  capacity : ∀ stream ∈ stage.current, stream.capacity = setup.capacity
  spaced : Event.Spaced (setup.capacity - 7) (stage.journal.view Event.handled?)
  ample : stage.current.isSome → ∀ event ∈ (stage.journal.view Event.handled?).getLast?,
    event.Ample (setup.capacity - 7)

/-- What a step adds to a stage: some events, whose offers are no larger than the buffer and, unless
the step finishes a file, miss at most seven bytes. -/
structure Delivers (setup : Setup) (stage : Stage) (step : Step) (played : Stage × Option Error)
    (events : List Event) : Prop where
  journal : played.1.journal = stage.journal ++ events
  sizes : ∀ event ∈ events, ∀ size ∈ event.offered?,
    0 < size ∧ size ≤ setup.capacity ∧ (step.finishes = false → setup.capacity - 7 ≤ size)
  spaced : Event.Spaced (setup.capacity - 7) (played.1.journal.view Event.handled?)
  batched : played.2 = none → played.1.Batched setup

/-! ## One step -/

/-- What is written down has nothing to do with sinks. -/
theorem Batched.unhandled (h : stage.Batched setup) (step : Step) {later : Stage}
    {failure : Option Error} {events : List Event}
    (hjournal : later.journal = stage.journal ++ events) (hcurrent : later.current = stage.current)
    (hnone : ∀ event ∈ events, event.handled? = none) :
    Delivers setup stage step (later, failure) events := by
  have hview : later.journal.view Event.handled? = stage.journal.view Event.handled? := by
    rw [hjournal, Journal.view_append, List.filterMap_eq_nil_iff.mpr hnone, List.append_nil]
  refine ⟨hjournal, fun event hevent size hsize => ?_, hview ▸ h.spaced, fun _ => ?_⟩
  · rw [Event.offered?_eq_none (hnone event hevent)] at hsize
    cases hsize
  · exact ⟨hcurrent ▸ h.capacity, hview ▸ h.spaced, hcurrent ▸ hview ▸ h.ample⟩

/-- Bytes go to the open stream, which hands them over in batches. -/
theorem onStream_delivers (h : stage.Batched setup) (step : Step)
    {operation : WriteStream → Outcome WriteStream Unit}
    (hoperation : ∀ stream : WriteStream,
      stream.Batches (stream.capacity - 7) (operation stream)) :
    ∃ events, Delivers setup stage step (stage.onStream operation) events := by
  obtain ⟨journal, streams, current⟩ := stage
  cases current with
  | none => exact ⟨[], h.unhandled step rfl rfl (List.forall_mem_nil _)⟩
  | some stream =>
    have hcapacity : stream.capacity = setup.capacity := h.capacity stream rfl
    obtain ⟨hkept, hsizes⟩ := hoperation stream
    rw [hcapacity] at hkept hsizes
    have hample : ∀ event ∈ (operation stream).events.filterMap Event.handled?,
        event.Ample (setup.capacity - 7) := by
      intro event hevent size hsize
      obtain ⟨shown, hshown, hhandled⟩ := List.mem_filterMap.mp hevent
      rw [← Event.offered?_of_handled? hhandled] at hsize
      exact (hsizes shown hshown size hsize).1
    have hspaced := h.spaced.append (Event.spaced_of_ample hample) (h.ample rfl)
    refine ⟨(operation stream).events, ?_⟩
    rw [onStream_some]
    refine ⟨rfl, fun event hevent size hsize => ?_, ?_, fun _ => ⟨?_, ?_, fun _ => ?_⟩⟩
    · obtain ⟨hleast, hpos, hle⟩ := hsizes event hevent size hsize
      exact ⟨hpos, hle, fun _ => hleast⟩
    · rw [Journal.view_append]
      exact hspaced
    · intro later hlater
      obtain rfl := Option.some.inj hlater
      exact hkept
    · rw [Journal.view_append]
      exact hspaced
    · rw [Journal.view_append, List.getLast?_append]
      intro event hevent
      rcases Option.or_eq_some_iff.mp hevent with hevent | ⟨-, hevent⟩
      · exact hample event (List.mem_of_mem_getLast? hevent)
      · exact h.ample rfl event hevent

theorem openFile_delivers (h : stage.Batched setup) (hcapacity : 1 ≤ setup.capacity)
    (path : String) :
    ∃ events, Delivers setup stage (.openFile path) (stage.play setup (.openFile path)) events := by
  unfold play
  dsimp only
  cases setup.opener stage.openedPaths path with
  | error error =>
    exact ⟨[], h.unhandled _ rfl rfl (List.forall_mem_nil _)⟩
  | ok behaviour =>
    have hspaced : Event.Spaced (setup.capacity - 7)
        (stage.journal.view Event.handled? ++ [Event.opened path]) :=
      h.spaced.append_quiet fun event hevent => by
        obtain rfl := List.mem_singleton.mp hevent
        rfl
    refine ⟨[.opened path, .trace (.writeReady path setup.capacity)], rfl, ?_, ?_, fun _ => ?_⟩
    · simp [Event.offered?]
    · exact (Journal.view_append ..).symm ▸ hspaced
    · refine ⟨?_, (Journal.view_append ..).symm ▸ hspaced, fun _ => ?_⟩
      · intro stream hstream
        obtain rfl := Option.some.inj hstream
        exact Nat.max_eq_left hcapacity
      · intro event hevent
        have hview : Journal.view Event.handled? (stage.journal ++ [Event.opened path,
            .trace (.writeReady path setup.capacity)]) =
              stage.journal.view Event.handled? ++ [Event.opened path] := Journal.view_append ..
        rw [log, hview, List.getLast?_concat] at hevent
        obtain rfl := Option.some.inj hevent
        intro size hsize
        cases hsize

theorem closeFile_delivers (h : stage.Batched setup) (path : String) :
    ∃ events,
      Delivers setup stage (.closeFile path) (stage.play setup (.closeFile path)) events := by
  obtain ⟨journal, streams, current⟩ := stage
  cases current with
  | none => exact ⟨[], h.unhandled _ rfl rfl (List.forall_mem_nil _)⟩
  | some stream =>
    have hcapacity : stream.capacity = setup.capacity := h.capacity stream rfl
    obtain ⟨-, hsizes⟩ := stream.finish_batches
    rw [hcapacity] at hsizes
    have hspaced := h.spaced.append (stream.spaced_finish _) (h.ample rfl)
    show ∃ events, Delivers setup _ _ (closeStream ⟨journal, streams, some stream⟩ path) events
    cases hresult : stream.finish.result with
    | ok total =>
      rw [closeStream_ok hresult]
      have hview : Journal.view Event.handled?
          ((journal ++ stream.finish.events).push (.trace (.fileWritten path total))) =
            journal.view Event.handled? ++ stream.finish.events.filterMap Event.handled? := by
        rw [Journal.view_push, Journal.view_append]
        exact List.append_nil _
      refine ⟨stream.finish.events ++ [.trace (.fileWritten path total)], ?_, ?_, ?_, fun _ => ?_⟩
      · apply Array.toList_inj.mp
        simp
      · intro event hevent size hsize
        rcases List.mem_append.mp hevent with hevent | hevent
        · exact ⟨(hsizes event hevent size hsize).2.1, (hsizes event hevent size hsize).2.2,
            fun hfinishes => by cases hfinishes⟩
        · obtain rfl := List.mem_singleton.mp hevent
          cases hsize
      · exact hview ▸ hspaced
      · refine ⟨?_, hview ▸ hspaced, ?_⟩
        · intro other hother
          cases hother
        · intro hsome
          cases hsome
    | error error =>
      rw [closeStream_error hresult]
      refine ⟨stream.finish.events, rfl, ?_, ?_, fun hnone => by cases hnone⟩
      · intro event hevent size hsize
        exact ⟨(hsizes event hevent size hsize).2.1, (hsizes event hevent size hsize).2.2,
          fun hfinishes => by cases hfinishes⟩
      · rw [Journal.view_append]
        exact hspaced

/-- **A step in its place delivers batches.** -/
theorem play_delivers {inFile after : Bool} {step : Step} (h : stage.Batched setup)
    (hcapacity : 1 ≤ setup.capacity) (hown : step.Own) (hnext : step.next inFile = some after) :
    ∃ events, Delivers setup stage step (stage.play setup step) events := by
  cases step with
  | record event =>
    refine ⟨[event], h.unhandled _ rfl rfl fun other hother => ?_⟩
    obtain rfl := List.mem_singleton.mp hother
    exact Event.Own.handled?_eq_none hown
  | openFile path => exact openFile_delivers h hcapacity path
  | field path kind =>
    refine ⟨_, h.unhandled _ rfl rfl fun other hother => ?_⟩
    obtain rfl := List.mem_singleton.mp hother
    rfl
  | scalar bytes =>
    simp only [Step.next, Option.ite_none_right_eq_some] at hnext
    exact onStream_delivers h _ fun _ => WriteStream.put_batches hnext.1.2
  | payload bytes =>
    exact onStream_delivers h _ fun _ =>
      (WriteStream.copy_batches bytes).mono (Nat.sub_le _ _)
  | closeFile path => exact closeFile_delivers h path

/-- The flushes of a step are the offers among what it adds. -/
theorem Delivers.flushesOf_eq {step : Step} {events : List Event}
    (h : Delivers setup stage step (stage.play setup step) events) :
    stage.flushesOf setup step = (events.filterMap Event.offered?).map (Flush.mk step) := by
  unfold flushesOf
  dsimp only
  rw [h.journal, Array.toList_appendList, ← Array.length_toList, List.drop_left]

theorem Delivers.flush_sizes {step : Step} {events : List Event}
    (h : Delivers setup stage step (stage.play setup step) events) :
    ∀ flush ∈ stage.flushesOf setup step, flush.Fits setup.capacity := by
  intro flush hflush
  rw [h.flushesOf_eq] at hflush
  obtain ⟨size, hsize, rfl⟩ := List.mem_map.mp hflush
  obtain ⟨event, hevent, hoffered⟩ := List.mem_filterMap.mp hsize
  exact h.sizes event hevent size hoffered

/-! ## A whole script -/

/-- **An orderly script is played in batches**: the ledger lists all that sinks were offered. -/
theorem playAll_delivers {α : Type} {inFile last : Bool} (hcapacity : 1 ≤ setup.capacity)
    (script : Script α) (h : stage.Batched setup) (hown : script.Own)
    (hlast : Step.nextAll inFile script.steps = some last) :
    (stage.playAll setup script).1.journal.view Event.offered? =
        stage.journal.view Event.offered? ++ (stage.flushes setup script).map Flush.size ∧
      (∀ flush ∈ stage.flushes setup script, flush.Fits setup.capacity) ∧
      Event.Spaced (setup.capacity - 7)
        ((stage.playAll setup script).1.journal.view Event.handled?) := by
  induction script generalizing stage inFile with
  | done result => exact ⟨(List.append_nil _).symm, List.forall_mem_nil _, h.spaced⟩
  | ask step next ih =>
    change Step.nextAll inFile (step :: Script.steps (next ())) = some last at hlast
    rw [Step.nextAll_cons] at hlast
    obtain ⟨after, hafter, hrest⟩ := Option.bind_eq_some_iff.mp hlast
    obtain ⟨events, hstep⟩ := play_delivers h hcapacity (hown step List.mem_cons_self) hafter
    have hown' : Script.Own (next ()) := fun other hother =>
      hown other (List.mem_cons_of_mem _ hother)
    have hledger : (events.filterMap Event.offered?) =
        (stage.flushesOf setup step).map Flush.size := by
      rw [hstep.flushesOf_eq, List.map_map]
      exact (List.map_id _).symm
    have hfits := hstep.flush_sizes
    rw [playAll, flushes]
    cases hplay : stage.play setup step with | mk later failure
    rw [hplay] at hstep
    have hview : later.journal.view Event.offered? =
        stage.journal.view Event.offered? ++ (stage.flushesOf setup step).map Flush.size := by
      rw [← hledger, ← Journal.view_append]
      exact congrArg _ hstep.journal
    cases failure with
    | some error =>
      rw [List.append_nil]
      exact ⟨hview, hfits, hstep.spaced⟩
    | none =>
      obtain ⟨hmore, hfits', hspaced⟩ := ih () (hstep.batched rfl) hown' hrest
      refine ⟨?_, List.forall_mem_append.mpr ⟨hfits, hfits'⟩, hspaced⟩
      rw [hmore, hview, List.map_append, List.append_assoc]

end Stage

/-- The flushes of a whole play, after some events. -/
def Script.flushes {α : Type} (script : Script α) (setup : Setup) (before : List Event) :
    List Flush :=
  (Stage.empty.log before).flushes setup script

/-- Before the first step no sink was offered anything. -/
theorem Stage.batched_empty (setup : Setup) {before : List Event}
    (hbefore : before.filterMap Event.handled? = []) :
    (Stage.empty.log before).Batched setup := by
  refine ⟨?_, ?_, ?_⟩
  · intro stream hstream
    cases hstream
  · show Event.Spaced _ (Journal.view _ (#[] ++ before))
    rw [Journal.view_append, hbefore]
    exact List.IsChain.nil
  · intro hsome
    cases hsome

/-- What a script that keeps to the order does to sinks when it is played. -/
theorem Script.play_delivers {α : Type} {setup : Setup} (hcapacity : 1 ≤ setup.capacity)
    {script : Script α} (hown : script.Own) (horderly : Orderly false false script)
    {before : List Event} (hbefore : before.filterMap Event.handled? = []) :
    (script.play setup before).journal.view Event.offered? =
        (script.flushes setup before).map Flush.size ∧
      (∀ flush ∈ script.flushes setup before, flush.Fits setup.capacity) ∧
      Event.Spaced (setup.capacity - 7)
        ((script.play setup before).journal.view Event.handled?) := by
  obtain ⟨last, hlast, -⟩ := horderly
  obtain ⟨hledger, hfits, hspaced⟩ := Stage.playAll_delivers hcapacity script
    (Stage.batched_empty setup hbefore) hown hlast
  have hjournal : (script.play setup before).journal =
      ((Stage.empty.log before).playAll setup script).1.journal := Stage.journal_abandon _
  have hempty : (Stage.empty.log before).journal.view Event.offered? = [] := by
    show Journal.view _ (#[] ++ before) = _
    rw [Journal.view_append]
    refine List.filterMap_eq_nil_iff.mpr fun event hevent => Event.offered?_eq_none ?_
    exact List.filterMap_eq_nil_iff.mp hbefore event hevent
  rw [hjournal, hledger, hempty]
  exact ⟨rfl, hfits, hspaced⟩

end Write

open Write

/-- The flushes of a write pass, each with the step that made it. -/
def Schema.writeFlushes (schema : Schema) (provider : Provider) (options : Options)
    (opener : SinkOpener) : List Flush :=
  (schema.writeScript provider options).flushes
    { opener, capacity := options.clamped.bufferSize, debug := options.debug }
    (options.warnings .write)

/-- **Flushes are full batches.** In every write pass, whatever its layout picks, its provider holds
and its sinks do, no flush is empty or larger than the buffer, and every flush but the one that
finishes a file hands over all of the buffer up to at most seven bytes. So a file took at most one
flush more than there are such batches in the bytes handed over, which are the bytes of the file if
it was written to its end. -/
theorem Schema.write_batches (schema : Schema) (provider : Provider) (options : Options)
    (opener : SinkOpener) :
    let pass := schema.write provider options opener
    let flushes := schema.writeFlushes provider options opener
    let capacity := options.clamped.bufferSize
    16 ≤ capacity ∧
    pass.journal.view Event.offered? = flushes.map Flush.size ∧
    (∀ flush ∈ flushes, 0 < flush.size ∧ flush.size ≤ capacity ∧
      (flush.step.finishes = false → capacity - 7 ≤ flush.size)) ∧
    ∃ lives : List Life,
      pass.journal.view Event.handled? = lives.flatMap Life.events ∧
      List.Forall₂ Life.Of lives pass.streams.toList ∧
      ∀ life ∈ lives,
        life.offers.length ≤ life.offers.sum / (capacity - 7) + 1 ∧
        (life.ending ≠ .left →
          life.offers.length ≤ life.content.length / (capacity - 7) + 1) := by
  intro pass flushes capacity
  have hminimum : 16 ≤ capacity := options.minBufferSize_le_clamped
  have hbefore : (options.warnings .write).filterMap Event.handled? = [] := by
    unfold Options.warnings
    split <;> rfl
  have hcapacity : 1 ≤ (Setup.mk opener capacity options.debug).capacity :=
    Nat.le_trans (by decide) hminimum
  obtain ⟨hledger, hfits, hspaced⟩ := Script.play_delivers hcapacity
    (schema.writeScript_closed Pass.own_closed provider options)
    (schema.writeScript_orderly provider options) hbefore
  obtain ⟨lives, hserved⟩ := schema.write_served provider options opener
  refine ⟨hminimum, hledger, hfits, lives, hserved.journal, hserved.streams, ?_⟩
  intro life hlife
  have hlives : Event.Spaced (capacity - 7) (lives.flatMap Life.events) := hserved.journal ▸ hspaced
  obtain ⟨stream, hof⟩ := Life.exists_stream hserved.streams hlife
  have hpart : life.events <:+: lives.flatMap Life.events :=
    List.infix_of_mem_flatten (List.mem_map_of_mem hlife)
  have hspacedLife : Event.Spaced (capacity - 7) life.events :=
    List.IsChain.infix hlives hpart
  have hoffers : life.offers.length ≤ life.offers.sum / (capacity - 7) + 1 :=
    Life.length_offers_le (by omega) hspacedLife
  refine ⟨hoffers, fun hending => ?_⟩
  rw [(hof.complete hending).2] at hoffers
  exact hoffers

end ByteLayout
