import ByteLayout.Proofs.WriteFailure
import Mathlib.Algebra.GroupWithZero.Nat

/-!
# What a stream does to its sink

Whatever its sink does, a write stream hands over what it was given, in order, and nothing twice. An
operation that adds bytes only **offers** bytes to the sink: if it succeeds, the sink has accepted
all that it was offered; if not, the stream has failed (`Offers`).

When a stream is finished, the sink is flushed only after it has accepted everything, and is shut
down only after it was flushed. How a sink is left is its **ending**, and its **life** is all that
was done to it, from its opening on.

**Theorem (`put_offers`, `copy_offers`).** Adding a scalar that fits the buffer, or any payload,
only offers bytes to the sink.

**Theorem (`finish_ends`).** A stream that has only offered bytes ends, when it is finished, in one
of the endings, and what its sink holds then is what the ending says.
-/

namespace ByteLayout

/-- What was done to a sink, its opening included. -/
def Event.handled? : Event → Option Event
  | opened path => some (opened path)
  | sink path event => some (sink path event)
  | _ => none

/-- How a sink was left. -/
inductive SinkEnding where
  /-- It was flushed and then shut down. -/
  | finished
  /-- After the offers nothing more was asked of it. -/
  | left
  | flushFailed (error : IoError)
  | shutDownFailed (error : IoError)

namespace SinkEnding

/-- What was done to the sink after the last offer. -/
def deeds : SinkEnding → List SinkEvent
  | finished => [.flushed true, .shutDown true]
  | left => []
  | flushFailed _ => [.flushed false]
  | shutDownFailed _ => [.flushed true, .shutDown false]

/-- The failure behind it. A write that failed is an offer like the others. -/
def error? : SinkEnding → Option IoError
  | finished | left => none
  | flushFailed error | shutDownFailed error => some error

/-- The state of the stream in the end. -/
def state : SinkEnding → StreamState
  | finished => .closed
  | left | flushFailed _ | shutDownFailed _ => .errored

/-- How often the sink was asked to flush. -/
def flushes : SinkEnding → Nat
  | left => 0
  | finished | flushFailed _ | shutDownFailed _ => 1

/-- Whether the sink was shut down. -/
def isShut : SinkEnding → Bool
  | finished => true
  | left | flushFailed _ | shutDownFailed _ => false

end SinkEnding

/-- The life of a sink: the file that it stands for, the bytes that the pass has for that file, how
many were offered at once, and how the sink was left. -/
structure Life where
  path : String
  content : List UInt8
  offers : List Nat
  ending : SinkEnding

namespace Life

/-- The file with its bytes. -/
def file (life : Life) : String × List UInt8 := (life.path, life.content)

/-- What was done to a sink that was opened and offered bytes. -/
def served (path : String) (offers : List Nat) : List Event :=
  .opened path :: (offers.map SinkEvent.offered).map (Event.sink path)

/-- What was done to the sink, in order. -/
def events (life : Life) : List Event :=
  served life.path life.offers ++ life.ending.deeds.map (Event.sink life.path)

theorem served_append (path : String) (offers more : List Nat) :
    served path (offers ++ more) =
      served path offers ++ (more.map SinkEvent.offered).map (Event.sink path) := by
  unfold served
  rw [List.map_append, List.map_append, List.cons_append]

/-- Whether it is the life of the sink of a stream that is over. -/
structure Of (life : Life) (stream : WriteStream) : Prop where
  path : stream.path = life.path
  state : stream.state = life.ending.state
  received : stream.sink.data.toList <+: life.content
  /-- Before a flush, everything was accepted as it was offered. -/
  complete : life.ending ≠ .left →
    stream.sink.data.toList = life.content ∧ life.offers.sum = life.content.length
  flushes : stream.sink.flushes = life.ending.flushes
  shut : stream.sink.closed = life.ending.isShut
  flushFailed : ∀ error, life.ending = .flushFailed error →
    stream.sink.behaviour.flushError = some error
  shutDownFailed : ∀ error, life.ending = .shutDownFailed error →
    stream.sink.behaviour.shutdownError = some error

/-- A stream that is over has nothing to lose by an abort. -/
theorem Of.abort {life : Life} {stream : WriteStream} (h : life.Of stream) :
    life.Of stream.abort := by
  unfold WriteStream.abort
  by_cases hclosed : stream.state = .closed
  · rw [if_pos hclosed]
    exact h
  · rw [if_neg hclosed]
    have hstate : life.ending.state = .errored := by
      rw [h.state] at hclosed
      cases hending : life.ending with
      | finished => exact absurd (by rw [hending]; rfl) hclosed
      | _ => rfl
    exact ⟨h.path, hstate.symm, h.received, h.complete, h.flushes, h.shut, h.flushFailed,
      h.shutDownFailed⟩

end Life

/-- Handing over bytes is no flush and no shutdown. -/
theorem Sink.writeFrom_kept (sink : Sink) (offered : Nat) (bytes : List UInt8) :
    (sink.writeFrom offered bytes).1.flushes = sink.flushes ∧
      (sink.writeFrom offered bytes).1.closed = sink.closed := by
  match bytes with
  | [] =>
    rw [writeFrom]
    exact ⟨rfl, rfl⟩
  | byte :: rest =>
    rw [writeFrom]
    cases sink.behaviour.write sink.data.size offered with
    | failed error => exact ⟨rfl, rfl⟩
    | accepted n =>
      cases n with
      | zero => exact ⟨rfl, rfl⟩
      | succ n =>
        exact writeFrom_kept (sink.accept (byte :: rest.take n)) (offered - (n + 1)) (rest.drop n)
termination_by bytes.length
decreasing_by simp only [List.length_cons, List.length_drop]; omega

namespace WriteStream

variable {α β : Type} {stream : WriteStream}

/-! ## Offers -/

/-- An operation that adds `bytes` and only offers bytes to the sink. If it succeeds, the sink has
accepted all that it was offered; otherwise the stream has failed. -/
structure Offers (stream : WriteStream) (bytes : List UInt8) (offers : List Nat)
    (outcome : Outcome WriteStream α) : Prop where
  events : outcome.events.filterMap Event.handled? =
    (offers.map SinkEvent.offered).map (Event.sink stream.path)
  path : outcome.stream.path = stream.path
  capacity : outcome.stream.capacity = stream.capacity
  flushes : outcome.stream.sink.flushes = stream.sink.flushes
  closed : outcome.stream.sink.closed = stream.sink.closed
  received : outcome.stream.sink.data.toList <+: stream.accepted ++ bytes
  live : ∀ a, outcome.result = .ok a → outcome.stream.state.isOver = false
  accepted : ∀ a, outcome.result = .ok a → outcome.stream.accepted = stream.accepted ++ bytes
  offered : ∀ a, outcome.result = .ok a →
    outcome.stream.sink.data.size = stream.sink.data.size + offers.sum
  failed : ∀ error, outcome.result = .error error →
    outcome.stream.state = .errored ∧ ∃ failure, error = .io stream.path failure

/-- Nothing was offered. -/
theorem offers_nil {later : WriteStream} {bytes : List UInt8} (a : α)
    (hsink : later.sink = stream.sink) (hpath : later.path = stream.path)
    (hcapacity : later.capacity = stream.capacity) (hlive : later.state.isOver = false)
    (haccepted : later.accepted = stream.accepted ++ bytes) :
    Offers stream bytes [] ⟨.ok a, later, []⟩ := by
  refine ⟨rfl, hpath, hcapacity, congrArg Sink.flushes hsink, congrArg Sink.closed hsink, ?_,
    fun _ _ => hlive, fun _ _ => haccepted, fun _ _ => ?_, ?_⟩
  · exact haccepted ▸ List.prefix_append _ _
  · exact congrArg (fun sink => sink.data.size) hsink
  · intro error h
    cases h

/-- What is offered first comes first. -/
theorem Offers.bind {xs ys : List UInt8} {offers : List Nat} {first : Outcome WriteStream α}
    {f : WriteStream → α → Outcome WriteStream β} (h : Offers stream xs offers first)
    (hf : ∀ a, first.result = .ok a → ∃ more, Offers first.stream ys more (f first.stream a)) :
    ∃ all, Offers stream (xs ++ ys) all (first.bind f) := by
  unfold Outcome.bind
  cases hresult : first.result with
  | error error =>
    refine ⟨offers, h.events, h.path, h.capacity, h.flushes, h.closed, ?_, ?_, ?_, ?_, ?_⟩
    · rw [← List.append_assoc]
      exact h.received.trans (List.prefix_append _ _)
    · intro b hb
      cases hb
    · intro b hb
      cases hb
    · intro b hb
      cases hb
    · intro other hother
      obtain rfl := Except.error.inj hother
      exact h.failed error hresult
  | ok a =>
    obtain ⟨more, hmore⟩ := hf a hresult
    have haccepted := h.accepted a hresult
    have hoffered := h.offered a hresult
    refine ⟨offers ++ more, ?_, hmore.path.trans h.path, hmore.capacity.trans h.capacity,
      hmore.flushes.trans h.flushes, hmore.closed.trans h.closed, ?_, hmore.live, ?_, ?_, ?_⟩
    · rw [List.filterMap_append, h.events, hmore.events, h.path, List.map_append, List.map_append]
    · rw [← List.append_assoc, ← haccepted]
      exact hmore.received
    · intro b hb
      rw [hmore.accepted b hb, haccepted, List.append_assoc]
    · intro b hb
      rw [hmore.offered b hb, hoffered, List.sum_append, Nat.add_assoc]
    · rw [← h.path]
      exact hmore.failed

/-- Something was put into the buffer before. -/
theorem Offers.after {middle : WriteStream} {xs ys : List UInt8} {offers : List Nat}
    {outcome : Outcome WriteStream α} (h : Offers middle ys offers outcome)
    (hsink : middle.sink = stream.sink) (hpath : middle.path = stream.path)
    (hcapacity : middle.capacity = stream.capacity)
    (haccepted : middle.accepted = stream.accepted ++ xs) :
    Offers stream (xs ++ ys) offers outcome := by
  refine ⟨hpath ▸ h.events, h.path.trans hpath, h.capacity.trans hcapacity,
    hsink ▸ h.flushes, hsink ▸ h.closed, ?_, h.live, ?_, hsink ▸ h.offered, hpath ▸ h.failed⟩
  · rw [← List.append_assoc, ← haccepted]
    exact h.received
  · intro a ha
    rw [← List.append_assoc, ← haccepted]
    exact h.accepted a ha

/-! ## Flushing the buffer -/

theorem live_of_not_over (h : stream.state.isOver = false)
    (f : WriteStream → Outcome WriteStream α) : stream.live f = f stream := by
  unfold live
  rw [h]
  rfl

theorem drain_offers (h : stream.state.isOver = false) :
    Offers stream [] [stream.buffer.size] stream.drain := by
  obtain ⟨sink, buffer, flushed, state, path⟩ := stream
  obtain ⟨given, rest, hsplit, hdata, hall⟩ := sink.writeFrom_given buffer.bytes.length buffer.bytes
  obtain ⟨hflushes, hclosed⟩ := sink.writeFrom_kept buffer.bytes.length buffer.bytes
  have hreceived : (sink.writeFrom buffer.bytes.length buffer.bytes).1.data.toList <+:
      sink.data.toList ++ buffer.bytes ++ [] := by
    rw [hdata, List.append_nil, List.prefix_append_right_inj, hsplit]
    exact List.prefix_append _ _
  unfold drain Sink.writeAll
  dsimp only
  cases hwrite : sink.writeFrom buffer.bytes.length buffer.bytes with | mk written failure
  rw [hwrite] at hdata hall hflushes hclosed hreceived
  cases failure with
  | some error =>
    refine ⟨rfl, rfl, rfl, hflushes, hclosed, hreceived, ?_, ?_, ?_, ?_⟩
    · intro a ha
      cases ha
    · intro a ha
      cases ha
    · intro a ha
      cases ha
    · intro other hother
      exact ⟨rfl, error, (Except.error.inj hother).symm⟩
  | none =>
    obtain rfl : rest = [] := hall rfl
    rw [List.append_nil] at hsplit
    refine ⟨rfl, rfl, rfl, hflushes, hclosed, hreceived, fun _ _ => h, fun _ _ => ?_,
      fun _ _ => ?_, ?_⟩
    · show written.data.toList ++ buffer.clear.bytes = sink.data.toList ++ buffer.bytes ++ []
      rw [hdata, Buffer.bytes_clear, hsplit]
    · show written.data.size = sink.data.size + [buffer.size].sum
      rw [← Array.length_toList, hdata, List.length_append, ← hsplit, Buffer.length_bytes,
        Array.length_toList, List.sum_singleton]
    · intro other hother
      cases hother

theorem flush_offers (h : stream.state.isOver = false) :
    ∃ offers, Offers stream [] offers stream.flush := by
  unfold flush
  rw [live_of_not_over h]
  split
  · exact ⟨[], offers_nil () rfl rfl rfl h (List.append_nil _).symm⟩
  · exact ⟨_, drain_offers h⟩

/-- After a flush that succeeded, there is room for a whole buffer. -/
theorem room_of_flush (h : stream.state.isOver = false) (hok : stream.flush.result = .ok ()) :
    stream.flush.stream.buffer.room = stream.capacity := by
  obtain ⟨offers, hoffers⟩ := flush_offers h
  have hempty : stream.flush.stream.buffer.size = 0 := by
    rw [← Buffer.length_bytes, buffered_flush hok]
    rfl
  unfold Buffer.room
  rw [hempty, Nat.sub_zero]
  exact hoffers.capacity

/-! ## Scalars -/

theorem freed_offers (h : stream.state.isOver = false) (count : Nat) :
    ∃ offers, Offers stream [] offers (stream.freed count) := by
  unfold freed
  split
  · exact flush_offers h
  · exact ⟨[], offers_nil () rfl rfl rfl h (List.append_nil _).symm⟩

theorem room_of_freed (h : stream.state.isOver = false) {count : Nat}
    (hcount : count ≤ stream.capacity) (hok : (stream.freed count).result = .ok ()) :
    count ≤ (stream.freed count).stream.buffer.room := by
  unfold freed at hok ⊢
  by_cases hroom : stream.buffer.room < count
  · rw [if_pos hroom] at hok ⊢
    rw [room_of_flush h hok]
    exact hcount
  · rw [if_neg hroom]
    exact Nat.le_of_not_lt hroom

/-- A scalar that fits is put behind what was freed. -/
theorem put_eq_bind (h : stream.state.isOver = false) {bytes : List UInt8}
    (hlength : bytes.length ≤ stream.capacity) :
    stream.put bytes = (stream.freed bytes.length).bind fun stream _ =>
      ⟨.ok (), { stream with state := .streaming }.fill bytes, []⟩ := by
  unfold put reserve
  rw [live_of_not_over h, if_neg (Nat.not_lt.mpr hlength)]
  show ((stream.freed bytes.length).bind _).bind _ = _
  unfold Outcome.bind
  cases (stream.freed bytes.length).result with
  | error error => rfl
  | ok a => simp only [List.append_nil]

theorem accepted_fill {bytes : List UInt8} (hroom : bytes.length ≤ stream.buffer.room) :
    (stream.fill bytes).accepted = stream.accepted ++ bytes := by
  show stream.sink.data.toList ++ (stream.buffer.append bytes).bytes = _
  rw [Buffer.bytes_append, List.take_of_length_le hroom, ← List.append_assoc]
  rfl

/-- **A scalar that fits the buffer only makes the stream offer bytes.** -/
theorem put_offers (h : stream.state.isOver = false) {bytes : List UInt8}
    (hlength : bytes.length ≤ stream.capacity) :
    ∃ offers, Offers stream bytes offers (stream.put bytes) := by
  obtain ⟨offers, hfreed⟩ := freed_offers h bytes.length
  rw [put_eq_bind h hlength]
  exact hfreed.bind fun a hok =>
    ⟨[], offers_nil () rfl rfl rfl rfl (accepted_fill (room_of_freed h hlength hok))⟩

/-! ## Payloads -/

theorem freedIfFull_offers (h : stream.state.isOver = false) :
    ∃ offers, Offers stream [] offers stream.freedIfFull := by
  unfold freedIfFull
  split
  · exact flush_offers h
  · exact ⟨[], offers_nil () rfl rfl rfl h (List.append_nil _).symm⟩

theorem room_of_freedIfFull (h : stream.state.isOver = false)
    (hok : stream.freedIfFull.result = .ok ()) : 0 < stream.freedIfFull.stream.buffer.room := by
  unfold freedIfFull at hok ⊢
  by_cases hfull : stream.buffer.isFull = true
  · rw [if_pos hfull] at hok ⊢
    rw [room_of_flush h hok]
    exact stream.buffer.capacity_pos
  · rw [if_neg hfull]
    have hle : stream.buffer.size ≤ stream.buffer.capacity := stream.buffer.size_le
    have hne : stream.buffer.size ≠ stream.buffer.capacity := fun heq => hfull (beq_iff_eq.mpr heq)
    show 0 < stream.buffer.capacity - stream.buffer.size
    omega

/-- Bytes go through the buffer a bufferful at a time. -/
theorem pump_offers {stream : WriteStream} (h : stream.state.isOver = false)
    (bytes : List UInt8) : ∃ offers, Offers stream bytes offers (stream.pump bytes []) := by
  match bytes with
  | [] =>
    rw [pump]
    exact ⟨[], offers_nil () rfl rfl rfl h (List.append_nil _).symm⟩
  | byte :: rest =>
    obtain ⟨offers, hfreed⟩ := freedIfFull_offers h
    rw [pump_cons_eq_bind]
    rw [← List.nil_append (byte :: rest)]
    refine hfreed.bind fun a hok => ?_
    obtain ⟨room, hroom⟩ :=
      Nat.exists_eq_succ_of_ne_zero (Nat.pos_iff_ne_zero.mp (room_of_freedIfFull h hok))
    have hsplit : byte :: rest = (byte :: rest).take (room + 1) ++ rest.drop room := by
      rw [List.take_succ_cons, List.cons_append, List.take_append_drop]
    have hfill : (stream.freedIfFull.stream.fill (byte :: rest)).accepted =
        stream.freedIfFull.stream.accepted ++ (byte :: rest).take (room + 1) := by
      show _ ++ (Buffer.append _ _).bytes = _
      rw [Buffer.bytes_append, hroom, ← List.append_assoc]
      rfl
    have hlive : (stream.freedIfFull.stream.fill (byte :: rest)).state.isOver = false :=
      hfreed.live a hok
    obtain ⟨more, hmore⟩ := pump_offers hlive (rest.drop room)
    unfold pour
    rw [hroom]
    have hall : stream.freedIfFull.stream.Offers _ more _ := hmore.after rfl rfl rfl hfill
    rw [← hsplit] at hall
    exact ⟨more, hall⟩
termination_by bytes.length
decreasing_by simp only [List.length_cons, List.length_drop]; omega

/-- **A payload only makes the stream offer bytes.** -/
theorem copy_offers (h : stream.state.isOver = false) (bytes : List UInt8) :
    ∃ offers, Offers stream bytes offers (stream.copy bytes) := by
  unfold copy
  rw [live_of_not_over h]
  set middle : WriteStream := { stream with state := .streaming }
  have hlive : middle.state.isOver = false := rfl
  have haccepted : middle.accepted = stream.accepted ++ [] := (List.append_nil _).symm
  obtain ⟨offers, hoffers⟩ := pump_offers hlive bytes
  have hall : stream.Offers ([] ++ bytes) offers _ := hoffers.after rfl rfl rfl haccepted
  exact ⟨offers, hall⟩

/-! ## The end of a file -/

/-- An open stream whose sink was opened, accepted some offers, and nothing else. -/
structure Serving (stream : WriteStream) (offers : List Nat) : Prop where
  live : stream.state.isOver = false
  flushes : stream.sink.flushes = 0
  closed : stream.sink.closed = false
  offered : offers.sum = stream.sink.data.size

theorem serving_create (behaviour : SinkBehaviour) (capacity : Nat) (path : String) :
    (create behaviour capacity path).Serving [] :=
  ⟨rfl, rfl, rfl, rfl⟩

/-- What only offers bytes goes on serving, if it succeeds. -/
theorem Serving.offers {offers more : List Nat} {bytes : List UInt8}
    {outcome : Outcome WriteStream α} (h : stream.Serving offers)
    (hmore : Offers stream bytes more outcome) {a : α} (hok : outcome.result = .ok a) :
    outcome.stream.Serving (offers ++ more) := by
  refine ⟨hmore.live a hok, hmore.flushes.trans h.flushes, hmore.closed.trans h.closed, ?_⟩
  rw [List.sum_append, h.offered, hmore.offered a hok]

/-- The life of a sink that is left alone, though more was to come. -/
theorem Serving.left {offers : List Nat} {content : List UInt8} (h : stream.Serving offers)
    (hcontent : stream.sink.data.toList <+: content) :
    (Life.mk stream.path content offers .left).Of stream.abort := by
  have hclosed : stream.state ≠ .closed := by
    intro hclosed
    have hlive := h.live
    rw [hclosed] at hlive
    cases hlive
  unfold abort
  rw [if_neg hclosed]
  refine ⟨rfl, rfl, hcontent, fun hleft => absurd rfl hleft, h.flushes, h.closed, ?_, ?_⟩
  · intro error herror
    cases herror
  · intro error herror
    cases herror

/-- The life of a sink that failed when it was offered bytes. -/
theorem Serving.failed {offers more : List Nat} {bytes content : List UInt8}
    {outcome : Outcome WriteStream α} (h : stream.Serving offers)
    (hmore : Offers stream bytes more outcome) {error : Error}
    (herror : outcome.result = .error error)
    (hcontent : stream.accepted ++ bytes <+: content) :
    (Life.mk stream.path content (offers ++ more) .left).Of outcome.stream := by
  refine ⟨hmore.path, (hmore.failed error herror).1, hmore.received.trans hcontent,
    fun hleft => absurd rfl hleft, hmore.flushes.trans h.flushes, hmore.closed.trans h.closed,
    ?_, ?_⟩
  · intro other hother
    cases hother
  · intro other hother
    cases hother

/-- How a stream was finished: the sink was offered the last bytes and left in some way, with its
life behind it. -/
structure Ends (stream : WriteStream) (offers more : List Nat) (ending : SinkEnding)
    (outcome : Outcome WriteStream Nat) : Prop where
  events : outcome.events.filterMap Event.handled? =
    (more.map SinkEvent.offered).map (Event.sink stream.path) ++
      ending.deeds.map (Event.sink stream.path)
  life : (Life.mk stream.path stream.accepted (offers ++ more) ending).Of outcome.stream
  ok : ∀ total, outcome.result = .ok total → ending = .finished
  error : ∀ error, outcome.result = .error error → ending ≠ .finished ∧
    ∃ failure, error = .io stream.path failure ∧ ∀ known, ending.error? = some known →
      failure = known

/-- Closing flushes the sink, which has accepted everything, and then shuts it down. -/
theorem close_ends {offers : List Nat} (h : stream.Serving offers)
    (hempty : stream.buffer.bytes = []) : ∃ ending, Ends stream offers [] ending stream.close := by
  have hdata : stream.sink.data.toList = stream.accepted := by
    unfold accepted
    rw [hempty, List.append_nil]
  have hsum : (offers ++ []).sum = stream.accepted.length := by
    rw [List.append_nil, h.offered, ← hdata, Array.length_toList]
  have hflushes : stream.sink.flushes + 1 = 1 := by rw [h.flushes]
  have hreceived : stream.sink.data.toList <+: stream.accepted := hdata ▸ List.prefix_rfl
  unfold close Sink.flush Sink.shutDown
  dsimp only
  cases hflush : stream.sink.behaviour.flushError with
  | some failure =>
    refine ⟨.flushFailed failure, ⟨rfl, ⟨rfl, rfl, hreceived, fun _ => ⟨hdata, hsum⟩, hflushes,
      h.closed, ?_, ?_⟩, ?_, ?_⟩⟩
    · intro error herror
      rw [← SinkEnding.flushFailed.inj herror]
      exact hflush
    · intro error herror
      cases herror
    · intro total htotal
      cases htotal
    · intro error herror
      refine ⟨SinkEnding.noConfusion, failure, (Except.error.inj herror).symm, ?_⟩
      intro known hknown
      exact Option.some.inj hknown
  | none =>
    cases hshut : stream.sink.behaviour.shutdownError with
    | some failure =>
      refine ⟨.shutDownFailed failure, ⟨rfl, ⟨rfl, rfl, hreceived, fun _ => ⟨hdata, hsum⟩, hflushes,
        h.closed, ?_, ?_⟩, ?_, ?_⟩⟩
      · intro error herror
        cases herror
      · intro error herror
        rw [← SinkEnding.shutDownFailed.inj herror]
        exact hshut
      · intro total htotal
        cases htotal
      · intro error herror
        refine ⟨SinkEnding.noConfusion, failure, (Except.error.inj herror).symm, ?_⟩
        intro known hknown
        exact Option.some.inj hknown
    | none =>
      refine ⟨.finished, ⟨rfl, ⟨rfl, rfl, hreceived, fun _ => ⟨hdata, hsum⟩, hflushes, rfl, ?_, ?_⟩,
        fun _ _ => rfl, ?_⟩⟩
      · intro error herror
        cases herror
      · intro error herror
        cases herror
      · intro error herror
        cases herror

/-- **A stream is finished in one of the endings**, and its sink holds what the ending says. -/
theorem finish_ends {offers : List Nat} (h : stream.Serving offers) :
    ∃ more ending, Ends stream offers more ending stream.finish := by
  set last : WriteStream := { stream with state := .finalizing }
  have hlast : last.Serving offers := ⟨rfl, h.flushes, h.closed, h.offered⟩
  obtain ⟨more, hmore⟩ := flush_offers hlast.live
  have hfinish : stream.finish = last.flush.bind fun stream _ => stream.close :=
    live_of_not_over h.live _
  rw [hfinish]
  unfold Outcome.bind
  cases hresult : last.flush.result with
  | error error =>
    refine ⟨more, .left, ?_, ?_, ?_, ?_⟩
    · rw [SinkEnding.deeds, List.map_nil, List.append_nil]
      exact hmore.events
    · have hprefix : last.accepted ++ [] <+: stream.accepted := by
        rw [List.append_nil]
        exact List.prefix_rfl
      have hlife := hlast.failed hmore hresult hprefix
      exact hlife
    · intro total htotal
      cases htotal
    · intro other hother
      obtain ⟨-, failure, hfailure⟩ := hmore.failed error hresult
      refine ⟨SinkEnding.noConfusion, failure, (Except.error.inj hother).symm.trans hfailure, ?_⟩
      intro known hknown
      cases hknown
  | ok =>
    have haccepted : last.flush.stream.accepted = stream.accepted :=
      (hmore.accepted () hresult).trans (List.append_nil _)
    obtain ⟨ending, hends⟩ := close_ends (hlast.offers hmore hresult) (buffered_flush hresult)
    have hpath : last.flush.stream.path = stream.path := hmore.path
    have hlife := hends.life
    rw [hpath, haccepted, List.append_nil] at hlife
    have herror := hends.error
    rw [hpath] at herror
    refine ⟨more, ending, ?_, hlife, hends.ok, herror⟩
    rw [List.filterMap_append, hmore.events, hends.events, hpath, List.map_nil, List.map_nil,
      List.nil_append]

end WriteStream

end ByteLayout
