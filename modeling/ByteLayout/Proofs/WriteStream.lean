import ByteLayout.Proofs.Journal
import ByteLayout.Stream.Write
import Mathlib.Tactic.Set

/-!
# Write streams on sinks that do not fail

A sink that never fails accepts some byte of whatever it is offered. In front of such a sink a write
stream is known by the bytes it has **accepted**, those that the sink holds followed by those that
are buffered: when the buffer is flushed depends on its capacity, what was accepted does not.

`Adds stream bytes outcome` says that an operation succeeded and added `bytes` to what was accepted.
**Theorem** (`put_adds`, `copy_adds`): a scalar that fits the buffer and a payload of any length are
added as they are. **Theorem** (`finish_faultless`): after the stream is finished, the sink holds
all that was accepted.
-/

namespace ByteLayout

/-- Whether a sink accepts some byte of whatever it is offered, and can be flushed and shut down. -/
structure SinkBehaviour.NeverFails (behaviour : SinkBehaviour) : Prop where
  write : ∀ before offered, 0 < offered → ∃ n, behaviour.write before offered = .accepted (n + 1)
  flush : behaviour.flushError = none
  shutDown : behaviour.shutdownError = none

theorem SinkBehaviour.neverFails_faultless : SinkBehaviour.faultless.NeverFails :=
  ⟨fun _ offered h => ⟨offered - 1, by
    show WriteReply.accepted offered = _
    rw [Nat.sub_add_cancel h]⟩, rfl, rfl⟩

namespace Sink

/-- A run of bytes reaches the sink, whatever part it accepts of each write. -/
theorem writeFrom_neverFails (sink : Sink) (bytes : List UInt8)
    (h : sink.behaviour.NeverFails) :
    ∃ received : Sink, sink.writeFrom bytes.length bytes = (received, none) ∧
      received.behaviour = sink.behaviour ∧
      received.data.toList = sink.data.toList ++ bytes := by
  match bytes with
  | [] =>
    refine ⟨sink, ?_, rfl, (List.append_nil _).symm⟩
    rw [writeFrom]
  | byte :: rest =>
    obtain ⟨n, hn⟩ := h.write sink.data.size (byte :: rest).length (Nat.succ_pos _)
    have hlength : (byte :: rest).length - (n + 1) = (rest.drop n).length := by
      simp only [List.length_cons, List.length_drop]
      omega
    obtain ⟨received, hwrite, hbehaviour, hdata⟩ :=
      writeFrom_neverFails (sink.accept (byte :: rest.take n)) (rest.drop n) h
    refine ⟨received, ?_, hbehaviour, ?_⟩
    · rw [writeFrom, hn]
      show (sink.accept (byte :: rest.take n)).writeFrom
        ((byte :: rest).length - (n + 1)) (rest.drop n) = _
      rw [hlength, hwrite]
    · rw [hdata, data_accept, List.append_assoc, List.cons_append, List.take_append_drop]
termination_by bytes.length
decreasing_by simp only [List.length_cons, List.length_drop]; omega

end Sink

namespace WriteStream

/-- The bytes accepted so far: those that the sink holds, then those that are buffered. -/
def accepted (stream : WriteStream) : List UInt8 :=
  stream.sink.data.toList ++ stream.buffer.bytes

/-- A stream in use whose sink never fails, and that counts what its sink holds. -/
structure Faultless (stream : WriteStream) : Prop where
  sink : stream.sink.behaviour.NeverFails
  live : stream.state.isOver = false
  flushed : stream.flushed = stream.sink.data.size

theorem position_eq_length {stream : WriteStream} (h : stream.Faultless) :
    stream.position = stream.accepted.length := by
  unfold position accepted
  rw [List.length_append, Buffer.length_bytes, h.flushed, Array.length_toList]

/-- `later` is the stream with `bytes` added to what it accepted. -/
structure Extends (stream later : WriteStream) (bytes : List UInt8) : Prop where
  faultless : later.Faultless
  accepted : later.accepted = stream.accepted ++ bytes
  capacity : later.capacity = stream.capacity
  path : later.path = stream.path

theorem Extends.refl {stream : WriteStream} (h : stream.Faultless) : stream.Extends stream [] :=
  ⟨h, (List.append_nil _).symm, rfl, rfl⟩

theorem Extends.trans {first second third : WriteStream} {xs ys : List UInt8}
    (h : first.Extends second xs) (h' : second.Extends third ys) :
    first.Extends third (xs ++ ys) :=
  ⟨h'.faultless, by rw [h'.accepted, h.accepted, List.append_assoc], h'.capacity.trans h.capacity,
    h'.path.trans h.path⟩

/-- An operation that succeeded and added `bytes`. -/
structure Adds {α : Type} (stream : WriteStream) (bytes : List UInt8)
    (outcome : Outcome WriteStream α) : Prop where
  ok : ∃ a, outcome.result = .ok a
  extended : stream.Extends outcome.stream bytes
  quiet : ∀ event ∈ outcome.events, event.Quiet

theorem Adds.bind {α β : Type} {stream : WriteStream} {xs ys : List UInt8}
    {outcome : Outcome WriteStream α} {f : WriteStream → α → Outcome WriteStream β}
    (h : Adds stream xs outcome) (hf : ∀ a, Adds outcome.stream ys (f outcome.stream a)) :
    Adds stream (xs ++ ys) (outcome.bind f) := by
  obtain ⟨⟨a, ha⟩, hext, hquiet⟩ := h
  unfold Outcome.bind
  rw [ha]
  exact ⟨(hf a).ok, hext.trans (hf a).extended, Event.quiet_append hquiet (hf a).quiet⟩

variable {stream : WriteStream}

/-! ## Flushing -/

theorem live_eq {α : Type} (h : stream.Faultless)
    (f : WriteStream → Outcome WriteStream α) : stream.live f = f stream := by
  unfold live
  rw [h.live]
  rfl

theorem drain_adds (h : stream.Faultless) : Adds stream [] stream.drain := by
  obtain ⟨sink, buffer, flushed, state, path⟩ := stream
  obtain ⟨received, hwrite, hbehaviour, hdata⟩ := sink.writeFrom_neverFails buffer.bytes h.sink
  have hwriteAll : sink.writeAll buffer.bytes = (received, none) := hwrite
  unfold drain
  simp only [hwriteAll]
  refine ⟨⟨(), rfl⟩, ⟨⟨?_, h.live, ?_⟩, ?_, rfl, rfl⟩, ?_⟩
  · show received.behaviour.NeverFails
    rw [hbehaviour]
    exact h.sink
  · show flushed + buffer.size = received.data.size
    rw [← Array.length_toList, hdata, List.length_append, Buffer.length_bytes, Array.length_toList]
    exact congrArg (· + buffer.size) h.flushed
  · show received.data.toList ++ buffer.clear.bytes = sink.data.toList ++ buffer.bytes ++ []
    rw [hdata, Buffer.bytes_clear]
  · intro event he
    rcases List.mem_cons.mp he with rfl | he
    · exact trivial
    · rcases List.mem_singleton.mp he with rfl
      exact trivial

theorem flush_adds (h : stream.Faultless) : Adds stream [] stream.flush := by
  unfold flush
  rw [live_eq h]
  split
  · exact ⟨⟨(), rfl⟩, .refl h, fun _ he => by cases he⟩
  · exact drain_adds h

/-- After a flush the buffer is empty. -/
theorem size_flush (h : stream.Faultless) : stream.flush.stream.buffer.size = 0 := by
  unfold flush
  rw [live_eq h]
  split
  · next hempty => exact beq_iff_eq.mp hempty
  · obtain ⟨sink, buffer, flushed, state, path⟩ := stream
    obtain ⟨received, hwrite, -, -⟩ := sink.writeFrom_neverFails buffer.bytes h.sink
    have hwriteAll : sink.writeAll buffer.bytes = (received, none) := hwrite
    unfold drain
    simp only [hwriteAll]
    rfl

/-! ## Scalars -/

/-- A window has the size that was reserved. -/
theorem length_reserve {count : Nat} {window : List UInt8}
    (h : (stream.reserve count).result = .ok window) : window.length = count := by
  unfold reserve live at h
  split at h
  · cases h
  · dsimp only at h
    split at h
    · cases h
    · unfold Outcome.bind at h
      split at h
      · cases h
      · cases h
        exact Buffer.length_window _ _

theorem streaming_extends (h : stream.Faultless) :
    stream.Extends { stream with state := .streaming } [] :=
  ⟨⟨h.sink, rfl, h.flushed⟩, (List.append_nil _).symm, rfl, rfl⟩

theorem fill_extends (h : stream.Faultless) {bytes : List UInt8}
    (hroom : bytes.length ≤ stream.buffer.room) : stream.Extends (stream.fill bytes) bytes := by
  refine ⟨⟨h.sink, h.live, h.flushed⟩, ?_, rfl, rfl⟩
  show stream.sink.data.toList ++ (stream.buffer.append bytes).bytes = _
  rw [Buffer.bytes_append, List.take_of_length_le hroom, ← List.append_assoc]
  rfl

/-- What makes room for a window of `count` bytes. -/
def freed (stream : WriteStream) (count : Nat) : Outcome WriteStream Unit :=
  if stream.buffer.room < count then stream.flush else ⟨.ok (), stream, []⟩

theorem freed_adds (h : stream.Faultless) (count : Nat) : Adds stream [] (stream.freed count) := by
  unfold freed
  split
  · exact flush_adds h
  · exact ⟨⟨(), rfl⟩, .refl h, fun _ he => by cases he⟩

theorem room_freed (h : stream.Faultless) {count : Nat} (hcount : count ≤ stream.capacity) :
    count ≤ (stream.freed count).stream.buffer.room := by
  have hcapacity := (freed_adds h count).extended.capacity
  unfold freed at hcapacity ⊢
  split at hcapacity
  · next hroom =>
    rw [if_pos hroom]
    unfold Buffer.room
    rw [size_flush h, Nat.sub_zero]
    exact Nat.le_trans hcount (Nat.le_of_eq hcapacity.symm)
  · next hroom =>
    rw [if_neg hroom]
    exact Nat.le_of_not_lt hroom

/-- **A scalar is added as it is**, provided that it fits the buffer. -/
theorem put_adds (h : stream.Faultless) {bytes : List UInt8}
    (hlength : bytes.length ≤ stream.capacity) : Adds stream bytes (stream.put bytes) := by
  have hfreed := freed_adds h bytes.length
  have hroom := room_freed h hlength
  unfold put reserve
  rw [live_eq h, if_neg (Nat.not_lt.mpr hlength)]
  have hreserved : Adds stream [] ((stream.freed bytes.length).bind fun stream _ =>
      ⟨.ok (stream.buffer.window bytes.length), { stream with state := .streaming }, []⟩) :=
    (List.append_nil []) ▸ hfreed.bind fun _ => ⟨⟨_, rfl⟩,
      streaming_extends hfreed.extended.faultless, fun _ he => by cases he⟩
  refine hreserved.bind fun _ => ⟨⟨(), rfl⟩, fill_extends hreserved.extended.faultless ?_,
    fun _ he => by cases he⟩
  obtain ⟨a, ha⟩ := hfreed.ok
  unfold Outcome.bind
  rw [ha]
  exact hroom

/-! ## Payloads -/

/-- What makes room for at least one byte. -/
def freedIfFull (stream : WriteStream) : Outcome WriteStream Unit :=
  if stream.buffer.isFull then stream.flush else ⟨.ok (), stream, []⟩

theorem freedIfFull_adds (h : stream.Faultless) : Adds stream [] stream.freedIfFull := by
  unfold freedIfFull
  split
  · exact flush_adds h
  · exact ⟨⟨(), rfl⟩, .refl h, fun _ he => by cases he⟩

theorem room_freedIfFull (h : stream.Faultless) : 0 < stream.freedIfFull.stream.buffer.room := by
  unfold freedIfFull Buffer.room
  split
  · rw [size_flush h]
    exact Nat.sub_pos_of_lt (Buffer.capacity_pos _)
  · next hfull =>
    have hle := stream.buffer.size_le
    have hne : stream.buffer.size ≠ stream.buffer.capacity := fun heq => hfull (beq_iff_eq.mpr heq)
    unfold Buffer.size at hne ⊢
    show 0 < stream.buffer.capacity - stream.buffer.filled.size
    omega

theorem pump_cons {byte : UInt8} {rest : List UInt8} {room : Nat} (events : List Event)
    (hok : stream.freedIfFull.result = .ok ())
    (hroom : stream.freedIfFull.stream.buffer.room = room + 1) :
    stream.pump (byte :: rest) events =
      (stream.freedIfFull.stream.fill (byte :: rest)).pump (rest.drop room)
        (stream.freedIfFull.events.reverse ++ events) := by
  conv => lhs; rw [pump]
  split
  · next hresult => cases hresult.symm.trans hok
  · next hempty => cases hempty.symm.trans hroom
  · next _ other _ hother =>
    obtain rfl := Nat.succ.inj (hother.symm.trans hroom)
    rfl

/-- Bytes go through the buffer in order, however often it is flushed on the way. -/
theorem pump_adds {stream : WriteStream} (h : stream.Faultless) (bytes : List UInt8)
    (events : List Event) (hevents : ∀ event ∈ events, event.Quiet) :
    Adds stream bytes (stream.pump bytes events) := by
  match bytes with
  | [] =>
    rw [pump]
    exact ⟨⟨(), rfl⟩, .refl h, Event.quiet_reverse hevents⟩
  | byte :: rest =>
    have hfreed := freedIfFull_adds h
    obtain ⟨⟨⟩, hok⟩ := hfreed.ok
    obtain ⟨room, hroom⟩ :=
      Nat.exists_eq_succ_of_ne_zero (Nat.pos_iff_ne_zero.mp (room_freedIfFull h))
    set freed := stream.freedIfFull
    have hmore := Event.quiet_append (Event.quiet_reverse hfreed.quiet) hevents
    have htake : (byte :: rest).take (room + 1) ++ rest.drop room = byte :: rest := by
      rw [List.take_succ_cons, List.cons_append, List.take_append_drop]
    have hfill : freed.stream.Extends (freed.stream.fill (byte :: rest))
        ((byte :: rest).take (room + 1)) := by
      refine ⟨⟨hfreed.extended.faultless.sink, hfreed.extended.faultless.live,
        hfreed.extended.faultless.flushed⟩, ?_, rfl, rfl⟩
      show freed.stream.sink.data.toList ++ (freed.stream.buffer.append (byte :: rest)).bytes = _
      rw [Buffer.bytes_append, hroom, ← List.append_assoc]
      rfl
    have hrest := pump_adds hfill.faultless (rest.drop room) (freed.events.reverse ++ events) hmore
    have hall := hfreed.extended.trans (hfill.trans hrest.extended)
    rw [htake, List.nil_append] at hall
    rw [pump_cons events hok hroom]
    exact ⟨hrest.ok, hall, hrest.quiet⟩
termination_by bytes.length
decreasing_by simp only [List.length_cons, List.length_drop]; omega

/-- **A payload is added as it is**, of whatever length. -/
theorem copy_adds (h : stream.Faultless) (bytes : List UInt8) :
    Adds stream bytes (stream.copy bytes) := by
  unfold copy
  rw [live_eq h]
  have hpump := pump_adds (streaming_extends h).faultless bytes [] fun _ he => by cases he
  exact ⟨hpump.ok, (streaming_extends h).trans hpump.extended, hpump.quiet⟩

/-! ## The end of a file -/

/-- What becomes of a stream that is finished: it is closed, and its sink holds all bytes. -/
structure Finished (stream : WriteStream) (outcome : Outcome WriteStream Nat) : Prop where
  ok : ∃ total, outcome.result = .ok total
  closed : outcome.stream.state = .closed
  data : outcome.stream.sink.data.toList = stream.accepted
  buffered : outcome.stream.buffer.bytes = []
  path : outcome.stream.path = stream.path
  quiet : ∀ event ∈ outcome.events, event.Quiet

theorem close_eq (h : stream.Faultless) :
    stream.close =
      { result := .ok stream.flushed
        stream := { stream with
          sink := { stream.sink with flushes := stream.sink.flushes + 1, closed := true }
          state := .closed }
        events := [.sink stream.path (.flushed true), .sink stream.path (.shutDown true),
          .trace (.writeClosed stream.path stream.flushed)] } := by
  unfold close Sink.flush Sink.shutDown
  simp only [h.sink.flush, h.sink.shutDown]
  rfl

/-- **A finished stream has handed over all bytes.** -/
theorem finish_faultless (h : stream.Faultless) : Finished stream stream.finish := by
  set last : WriteStream := { stream with state := .finalizing }
  have hlast : last.Faultless := ⟨h.sink, rfl, h.flushed⟩
  have hflush := flush_adds hlast
  have hsize : last.flush.stream.buffer.bytes = [] :=
    List.eq_nil_of_length_eq_zero (by rw [Buffer.length_bytes]; exact size_flush hlast)
  have hfinish : stream.finish = last.flush.bind fun stream _ => stream.close := live_eq h _
  obtain ⟨⟨⟩, hok⟩ := hflush.ok
  have haccepted := hflush.extended.accepted
  unfold accepted at haccepted
  rw [hsize, List.append_nil, List.append_nil] at haccepted
  rw [hfinish]
  unfold Outcome.bind
  rw [hok]
  simp only [close_eq hflush.extended.faultless]
  refine ⟨⟨_, rfl⟩, rfl, haccepted, hsize, hflush.extended.path,
    Event.quiet_append hflush.quiet ?_⟩
  simp [Event.Quiet]

/-! ## The beginning of a file -/

theorem faultless_create {behaviour : SinkBehaviour} (h : behaviour.NeverFails) (capacity : Nat)
    (path : String) : (create behaviour capacity path).Faultless :=
  ⟨h, rfl, rfl⟩

@[simp] theorem accepted_create (behaviour : SinkBehaviour) (capacity : Nat) (path : String) :
    (create behaviour capacity path).accepted = [] := rfl

@[simp] theorem capacity_create (behaviour : SinkBehaviour) (capacity : Nat) (path : String) :
    (create behaviour capacity path).capacity = max capacity 1 := rfl

end WriteStream

end ByteLayout
