import ByteLayout.Proofs.WriteStream

/-!
# Write streams on sinks that may fail

What is done to a stream whose sink may fail is compared with what is done to a stream with the same
buffer whose sink never does. The two go **alongside** as long as there is no failure: they have
handed over the same bytes and have the same bytes left. When the first has failed, it stays
**behind**: what its sink has received comes first in what the other has handed over.

**Theorem** (`put_trails`, `copy_trails`, `finish_trails`). Every operation either keeps two streams
alongside or leaves the first one, which has failed, behind.

**Theorem (`finish_completed`).** A stream is finished without an error only if everything was
handed over, and its sink was flushed and shut down.
-/

namespace ByteLayout

/-- What a sink accepts of a run of bytes comes first, and if it does not fail it is all of them. -/
theorem Sink.writeFrom_given (sink : Sink) (offered : Nat) (bytes : List UInt8) :
    ∃ given rest, bytes = given ++ rest ∧
      (sink.writeFrom offered bytes).1.data.toList = sink.data.toList ++ given ∧
      ((sink.writeFrom offered bytes).2 = none → rest = []) := by
  match bytes with
  | [] =>
    rw [writeFrom]
    exact ⟨[], [], rfl, (List.append_nil _).symm, fun _ => rfl⟩
  | byte :: rest =>
    rw [writeFrom]
    cases sink.behaviour.write sink.data.size offered with
    | failed error =>
      refine ⟨[], byte :: rest, rfl, (List.append_nil _).symm, ?_⟩
      intro h
      cases h
    | accepted n =>
      cases n with
      | zero =>
        refine ⟨[], byte :: rest, rfl, data_accept sink [], ?_⟩
        intro h
        cases h
      | succ n =>
        obtain ⟨given, left, hsplit, hdata, hall⟩ := writeFrom_given
          (sink.accept (byte :: rest.take n)) (offered - (n + 1)) (rest.drop n)
        refine ⟨byte :: rest.take n ++ given, left, ?_, ?_, hall⟩
        · rw [List.append_assoc, ← hsplit, List.cons_append, List.take_append_drop]
        · rw [hdata, data_accept, List.append_assoc]
termination_by bytes.length
decreasing_by simp only [List.length_cons, List.length_drop]; omega

namespace WriteStream

/-! ## Two streams -/

/-- Two streams that have handed over the same bytes and have the same bytes left, where the sink of
the second never fails. -/
structure Alongside (stream other : WriteStream) : Prop where
  data : other.sink.data = stream.sink.data
  buffer : other.buffer = stream.buffer
  flushed : other.flushed = stream.flushed
  state : other.state = stream.state
  path : other.path = stream.path
  faultless : other.sink.behaviour.NeverFails

/-- Two streams of one file, where the sink of the second has received more, if anything. -/
structure Behind (stream other : WriteStream) : Prop where
  path : other.path = stream.path
  data : stream.sink.data.toList <+: other.sink.data.toList

variable {α β : Type} {stream other : WriteStream}

theorem Alongside.refl (h : stream.sink.behaviour.NeverFails) : stream.Alongside stream :=
  ⟨rfl, rfl, rfl, rfl, rfl, h⟩

theorem Alongside.behind (h : stream.Alongside other) : stream.Behind other :=
  ⟨h.path, h.data ▸ List.prefix_rfl⟩

theorem Behind.refl (stream : WriteStream) : stream.Behind stream := ⟨rfl, List.prefix_rfl⟩

theorem Behind.trans {first second third : WriteStream} (h : first.Behind second)
    (h' : second.Behind third) : first.Behind third :=
  ⟨h'.path.trans h.path, h.data.trans h'.data⟩

/-- The outcomes of one operation on two streams: it succeeds or fails on both and keeps them
alongside, or it fails on the first, which is left behind. -/
structure Trails (other : WriteStream) (outcome outcome' : Outcome WriteStream α) : Prop where
  trails : (outcome'.result = outcome.result ∧ outcome.stream.Alongside outcome'.stream) ∨
    ∃ error, outcome.result = .error error ∧ outcome.stream.Behind outcome'.stream
  grows : other.Behind outcome'.stream
  faultless : outcome'.stream.sink.behaviour.NeverFails
  quiet : ∀ event ∈ outcome.events, event.Quiet
  quiet' : ∀ event ∈ outcome'.events, event.Quiet

theorem Trails.of_behind {middle : WriteStream} {outcome outcome' : Outcome WriteStream α}
    (h : Trails middle outcome outcome') (hmiddle : other.Behind middle) :
    Trails other outcome outcome' :=
  ⟨h.trails, hmiddle.trans h.grows, h.faultless, h.quiet, h.quiet'⟩

/-- Nothing was done to the bytes. -/
theorem trails_of_alongside {later later' : WriteStream} (result : Except Error α)
    (hgrows : other.Behind later') (h : later.Alongside later') :
    Trails other ⟨result, later, []⟩ ⟨result, later', []⟩ :=
  ⟨.inl ⟨rfl, h⟩, hgrows, h.faultless, List.forall_mem_nil _, List.forall_mem_nil _⟩

/-- What goes on after a success stays behind if it was left behind. -/
theorem Trails.bind {outcome outcome' : Outcome WriteStream α}
    {f : WriteStream → α → Outcome WriteStream β} (h : Trails other outcome outcome')
    (hf : ∀ a {stream other}, Alongside stream other → Trails other (f stream a) (f other a)) :
    Trails other (outcome.bind f) (outcome'.bind f) := by
  obtain ⟨result, later, events⟩ := outcome
  obtain ⟨result', later', events'⟩ := outcome'
  obtain ⟨htrails, hgrows, hfaultless, hquiet, hquiet'⟩ := h
  rcases htrails with ⟨hresult, halong⟩ | ⟨error, herror, hbehind⟩
  · obtain rfl : result' = result := hresult
    cases result' with
    | error error => exact ⟨.inl ⟨rfl, halong⟩, hgrows, hfaultless, hquiet, hquiet'⟩
    | ok a =>
      have hnext := hf a halong
      exact ⟨hnext.trails, hgrows.trans hnext.grows, hnext.faultless,
        Event.quiet_append hquiet hnext.quiet, Event.quiet_append hquiet' hnext.quiet'⟩
  · obtain rfl : result = .error error := herror
    cases result' with
    | error error' => exact ⟨.inr ⟨error, rfl, hbehind⟩, hgrows, hfaultless, hquiet, hquiet'⟩
    | ok a =>
      -- the other goes on alone
      have hnext := hf a (Alongside.refl hfaultless)
      exact ⟨.inr ⟨error, rfl, hbehind.trans hnext.grows⟩, hgrows.trans hnext.grows,
        hnext.faultless, hquiet, Event.quiet_append hquiet' hnext.quiet'⟩

/-! ## Flushing -/

theorem live_trails {f : WriteStream → Outcome WriteStream α} (h : stream.Alongside other)
    (hf : Trails other (f stream) (f other)) : Trails other (stream.live f) (other.live f) := by
  unfold live
  rw [h.state, h.path]
  split
  · exact trails_of_alongside _ (.refl other) h
  · exact hf

theorem drain_trails (h : stream.Alongside other) : Trails other stream.drain other.drain := by
  obtain ⟨sink, buffer, flushed, state, path⟩ := stream
  obtain ⟨sink', buffer', flushed', state', path'⟩ := other
  obtain ⟨hdata, rfl, rfl, rfl, rfl, hfaultless⟩ := h
  obtain ⟨received', hwrite', hbehaviour', hreceived'⟩ :=
    sink'.writeFrom_neverFails buffer'.bytes hfaultless
  obtain ⟨given, rest, hsplit, hreceived, hall⟩ :=
    sink.writeFrom_given buffer'.bytes.length buffer'.bytes
  have hgrows : sink'.data.toList <+: received'.data.toList := hreceived' ▸ List.prefix_append _ _
  unfold drain Sink.writeAll
  simp only [hwrite']
  change sink'.data = sink.data at hdata
  rw [hdata] at hreceived'
  cases hwritten : sink.writeFrom buffer'.bytes.length buffer'.bytes with | mk received failure
  rw [hwritten] at hreceived hall
  cases failure with
  | none =>
    obtain rfl := hall rfl
    rw [List.append_nil] at hsplit
    have hsame : received'.data = received.data :=
      Array.toList_inj.mp (hreceived'.trans (hsplit ▸ hreceived.symm))
    exact ⟨.inl ⟨rfl, hsame, rfl, rfl, rfl, rfl, hbehaviour' ▸ hfaultless⟩, ⟨rfl, hgrows⟩,
      hbehaviour' ▸ hfaultless, by simp [Event.Quiet], by simp [Event.Quiet]⟩
  | some error =>
    refine ⟨.inr ⟨_, rfl, rfl, ?_⟩, ⟨rfl, hgrows⟩, hbehaviour' ▸ hfaultless,
      by simp [fail, Event.Quiet], by simp [Event.Quiet]⟩
    show received.data.toList <+: received'.data.toList
    rw [hreceived, hreceived', hsplit]
    exact ⟨rest, by rw [List.append_assoc]⟩

theorem flush_trails (h : stream.Alongside other) : Trails other stream.flush other.flush := by
  refine live_trails h ?_
  rw [h.buffer]
  split
  · exact trails_of_alongside _ (.refl other) h
  · exact drain_trails h

/-! ## Scalars -/

theorem state_alongside (h : stream.Alongside other) (state : StreamState) :
    Alongside { stream with state } { other with state } :=
  ⟨h.data, h.buffer, h.flushed, rfl, h.path, h.faultless⟩

theorem fill_alongside (h : stream.Alongside other) (bytes : List UInt8) :
    (stream.fill bytes).Alongside (other.fill bytes) :=
  ⟨h.data, congrArg (Buffer.append · bytes) h.buffer, h.flushed, h.state, h.path, h.faultless⟩

theorem put_trails (h : stream.Alongside other) (bytes : List UInt8) :
    Trails other (stream.put bytes) (other.put bytes) := by
  have hcapacity : other.capacity = stream.capacity := congrArg Buffer.capacity h.buffer
  refine Trails.bind (live_trails h ?_) fun _ {_ _} hlater =>
    trails_of_alongside _ ⟨rfl, List.prefix_rfl⟩ (fill_alongside hlater bytes)
  dsimp only
  rw [hcapacity, h.path]
  split
  · exact trails_of_alongside _ (.refl other) h
  · refine Trails.bind ?_ fun _ {_ _} hlater => ?_
    · rw [h.buffer]
      split
      · exact flush_trails h
      · exact trails_of_alongside _ (.refl other) h
    · rw [congrArg (Buffer.window · bytes.length) hlater.buffer]
      exact trails_of_alongside _ ⟨rfl, List.prefix_rfl⟩ (state_alongside hlater .streaming)

/-! ## Payloads -/

theorem freedIfFull_trails (h : stream.Alongside other) :
    Trails other stream.freedIfFull other.freedIfFull := by
  unfold freedIfFull
  rw [h.buffer]
  split
  · exact flush_trails h
  · exact trails_of_alongside _ (.refl other) h

/-- Fills the buffer and lets the rest through, if there is room for a byte. -/
def pour (stream : WriteStream) (byte : UInt8) (rest : List UInt8) (events : List Event) :
    Outcome WriteStream Unit :=
  match stream.buffer.room with
  | 0 => ⟨.ok (), stream, events.reverse⟩
  | room + 1 => (stream.fill (byte :: rest)).pump (rest.drop room) events

theorem pump_cons_eq (stream : WriteStream) (byte : UInt8) (rest : List UInt8)
    (events : List Event) :
    stream.pump (byte :: rest) events =
      match stream.freedIfFull.result with
      | .error error => ⟨.error error, stream.freedIfFull.stream,
          (stream.freedIfFull.events.reverse ++ events).reverse⟩
      | .ok () =>
        stream.freedIfFull.stream.pour byte rest (stream.freedIfFull.events.reverse ++ events) := by
  rw [pump]
  split
  · next error hresult =>
    have hfreed : stream.freedIfFull.result = .error error := hresult
    rw [hfreed]
    rfl
  · next hresult hroom =>
    have hfreed : stream.freedIfFull.result = .ok () := hresult
    have hnone : stream.freedIfFull.stream.buffer.room = 0 := hroom
    rw [hfreed, pour, hnone]
    rfl
  · next room hresult hroom =>
    have hfreed : stream.freedIfFull.result = .ok () := hresult
    have hsome : stream.freedIfFull.stream.buffer.room = room + 1 := hroom
    rw [hfreed, pour, hsome]
    rfl

/-- The events so far come before those that are added. -/
theorem pump_eq_bind (stream : WriteStream) (bytes : List UInt8) (events : List Event) :
    stream.pump bytes events =
      Outcome.bind ⟨.ok (), stream, events.reverse⟩ fun stream _ => stream.pump bytes [] := by
  match bytes with
  | [] => simp [pump, Outcome.bind]
  | byte :: rest =>
    simp only [Outcome.bind, pump_cons_eq]
    cases stream.freedIfFull.result with
    | error error => simp
    | ok =>
      unfold pour
      cases stream.freedIfFull.stream.buffer.room with
      | zero => simp
      | succ room =>
        have hrest := pump_eq_bind (stream.freedIfFull.stream.fill (byte :: rest)) (rest.drop room)
        simp only [hrest (_ ++ _), Outcome.bind]
        simp
termination_by bytes.length
decreasing_by simp only [List.length_cons, List.length_drop]; omega

theorem pump_cons_eq_bind (stream : WriteStream) (byte : UInt8) (rest : List UInt8) :
    stream.pump (byte :: rest) [] =
      stream.freedIfFull.bind fun stream _ => stream.pour byte rest [] := by
  rw [pump_cons_eq]
  obtain ⟨result, later, events⟩ := stream.freedIfFull
  cases result with
  | error error => simp [Outcome.bind]
  | ok =>
    simp only [Outcome.bind, pour]
    cases later.buffer.room with
    | zero => simp
    | succ room =>
      simp only [pump_eq_bind _ _ (_ ++ _), Outcome.bind]
      simp

/-- Bytes go through both buffers in the same portions. -/
theorem pump_trails {stream other : WriteStream} (h : stream.Alongside other)
    (bytes : List UInt8) : Trails other (stream.pump bytes []) (other.pump bytes []) := by
  match bytes with
  | [] =>
    rw [pump, pump]
    exact trails_of_alongside _ (.refl other) h
  | byte :: rest =>
    rw [pump_cons_eq_bind, pump_cons_eq_bind]
    refine Trails.bind (freedIfFull_trails h) fun _ {_ later} hlater => ?_
    unfold pour
    rw [hlater.buffer]
    split
    · exact trails_of_alongside _ (.refl later) hlater
    · exact (pump_trails (fill_alongside hlater _) _).of_behind ⟨rfl, List.prefix_rfl⟩
termination_by bytes.length
decreasing_by simp only [List.length_cons, List.length_drop]; omega

theorem copy_trails (h : stream.Alongside other) (bytes : List UInt8) :
    Trails other (stream.copy bytes) (other.copy bytes) :=
  live_trails h
    ((pump_trails (state_alongside h .streaming) bytes).of_behind ⟨rfl, List.prefix_rfl⟩)

/-! ## The end of a file -/

theorem close_trails (h : stream.Alongside other) : Trails other stream.close other.close := by
  obtain ⟨sink, buffer, flushed, state, path⟩ := stream
  obtain ⟨sink', buffer', flushed', state', path'⟩ := other
  obtain ⟨hdata, rfl, rfl, rfl, rfl, hfaultless⟩ := h
  have hflush' : sink'.behaviour.flushError = none := hfaultless.flush
  have hshut' : sink'.behaviour.shutdownError = none := hfaultless.shutDown
  have hsame : sink'.data = sink.data := hdata
  have hbehind : sink.data.toList <+: sink'.data.toList := hsame ▸ List.prefix_rfl
  unfold close Sink.flush Sink.shutDown
  simp only [hflush', hshut']
  cases hflush : sink.behaviour.flushError with
  | some error =>
    exact ⟨.inr ⟨_, rfl, rfl, hbehind⟩, ⟨rfl, List.prefix_rfl⟩, hfaultless,
      by simp [fail, Event.Quiet], by simp [Event.Quiet]⟩
  | none =>
    cases hshut : sink.behaviour.shutdownError with
    | some error =>
      exact ⟨.inr ⟨_, rfl, rfl, hbehind⟩, ⟨rfl, List.prefix_rfl⟩, hfaultless,
        by simp [fail, Event.Quiet], by simp [Event.Quiet]⟩
    | none =>
      exact ⟨.inl ⟨rfl, hdata, rfl, rfl, rfl, rfl, hfaultless⟩, ⟨rfl, List.prefix_rfl⟩, hfaultless,
        by simp [Event.Quiet], by simp [Event.Quiet]⟩

theorem finish_trails (h : stream.Alongside other) : Trails other stream.finish other.finish :=
  live_trails h (Trails.bind
    ((flush_trails (state_alongside h .finalizing)).of_behind ⟨rfl, List.prefix_rfl⟩)
    fun _ {_ _} hlater => close_trails hlater)

/-- A file that is done: nothing is left in the buffer, and the sink was flushed and shut down, both
without an error. -/
structure Completed (stream : WriteStream) : Prop where
  state : stream.state = .closed
  buffered : stream.buffer.bytes = []
  flushed : 0 < stream.sink.flushes ∧ stream.sink.behaviour.flushError = none
  shutDown : stream.sink.closed = true ∧ stream.sink.behaviour.shutdownError = none

theorem live_eq_of_ok {f : WriteStream → Outcome WriteStream α} {a : α}
    (h : (stream.live f).result = .ok a) : stream.live f = f stream := by
  unfold live at h ⊢
  split
  · next hover =>
    rw [if_pos hover] at h
    cases h
  · rfl

/-- A flush that succeeds leaves nothing in the buffer. -/
theorem buffered_flush (h : stream.flush.result = .ok ()) :
    stream.flush.stream.buffer.bytes = [] := by
  have hlive : stream.flush = if stream.buffer.isEmpty then ⟨.ok (), stream, []⟩
      else stream.drain := live_eq_of_ok h
  rw [hlive] at h ⊢
  split
  · next hempty =>
    exact List.eq_nil_of_length_eq_zero (by rw [Buffer.length_bytes]; exact beq_iff_eq.mp hempty)
  · next hempty =>
    rw [if_neg hempty] at h
    obtain ⟨sink, buffer, flushed, state, path⟩ := stream
    unfold drain at h ⊢
    dsimp only at h ⊢
    cases hwritten : sink.writeAll buffer.bytes with | mk received failure
    rw [hwritten] at h
    cases failure with
    | some error => cases h
    | none => exact Buffer.bytes_clear buffer

theorem close_completed {total : Nat} (hbuffered : stream.buffer.bytes = [])
    (h : stream.close.result = .ok total) : stream.close.stream.Completed := by
  unfold close Sink.flush Sink.shutDown at h ⊢
  cases hflush : stream.sink.behaviour.flushError with
  | some error =>
    simp only [hflush] at h
    cases h
  | none =>
    cases hshut : stream.sink.behaviour.shutdownError with
    | some error =>
      simp only [hflush, hshut] at h
      cases h
    | none =>
      simp only [hshut]
      exact ⟨rfl, hbuffered, ⟨Nat.succ_pos _, hflush⟩, rfl, hshut⟩

/-- **A stream is finished without an error only if everything was handed over**, and the sink was
flushed and shut down. -/
theorem finish_completed {total : Nat} (h : stream.finish.result = .ok total) :
    stream.finish.stream.Completed := by
  set last : WriteStream := { stream with state := .finalizing }
  have hlive : stream.finish = last.flush.bind fun stream _ => stream.close := live_eq_of_ok h
  rw [hlive] at h ⊢
  unfold Outcome.bind at h ⊢
  cases hflush : last.flush.result with
  | error error =>
    simp only [hflush] at h
    cases h
  | ok =>
    simp only [hflush] at h ⊢
    exact close_completed (buffered_flush hflush) h

end WriteStream

end ByteLayout
