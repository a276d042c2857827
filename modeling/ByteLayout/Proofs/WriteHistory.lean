import ByteLayout.Proofs.Offering
import ByteLayout.Proofs.Handing

/-!
# Histories of write streams

Windows are reserved and filled, payloads are copied, and the stream is flushed and finished, in any
order and on a sink that may fail at any point. What such a history has **added** is the
concatenation of the payloads of the calls that succeeded.

**Step** (`WriteOperation.run_records`). A call adds its payload to what was accepted, or adds
nothing; if the sink fails, it has received no more than was accepted and the payload of the call.

**Theorem (`WriteStream.faithful_after`).** As long as the sink does not fail, the stream has
accepted what was added, and its position is the number of these bytes. A stream is finished only if
the sink holds all of them, and a sink that failed holds the first of them.
-/

namespace ByteLayout

namespace WriteStream

variable {α β : Type} {stream : WriteStream}

/-! ## Operations that keep every byte -/

/-- Whether the stream counts what its sink holds. -/
def Counts (stream : WriteStream) : Prop := stream.flushed = stream.sink.data.size

theorem Counts.position (h : stream.Counts) : stream.position = stream.accepted.length := by
  unfold WriteStream.position accepted
  rw [List.length_append, Buffer.length_bytes, h, Array.length_toList]

/-- What an operation keeps that adds `bytes` if it succeeds, and fails only with the sink. -/
structure Keeps (stream : WriteStream) (bytes : List UInt8) (outcome : Outcome WriteStream α) :
    Prop where
  capacity : outcome.stream.capacity = stream.capacity
  received : outcome.stream.sink.data.toList <+: stream.accepted ++ bytes
  accepted : ∀ a, outcome.result = .ok a → outcome.stream.accepted = stream.accepted ++ bytes
  counts : stream.Counts → ∀ a, outcome.result = .ok a → outcome.stream.Counts
  failed : ∀ error, outcome.result = .error error →
    outcome.stream.state = .errored ∧ ∃ path cause, error = .io path cause

theorem Keeps.bind {xs ys : List UInt8} {outcome : Outcome WriteStream α}
    {f : WriteStream → α → Outcome WriteStream β} (h : Keeps stream xs outcome)
    (hf : ∀ a, outcome.result = .ok a → Keeps outcome.stream ys (f outcome.stream a)) :
    Keeps stream (xs ++ ys) (outcome.bind f) := by
  unfold Outcome.bind
  cases hresult : outcome.result with
  | error error =>
    refine ⟨h.capacity, ?_, nofun, fun _ => nofun, fun other hother => ?_⟩
    · rw [← List.append_assoc]
      exact h.received.trans (List.prefix_append _ _)
    · rw [← Except.error.inj hother]
      exact h.failed error hresult
  | ok a =>
    have hnext := hf a hresult
    have haccepted := h.accepted a hresult
    refine ⟨hnext.capacity.trans h.capacity, ?_, fun b hb => ?_,
      fun hcounts => hnext.counts (h.counts hcounts a hresult), hnext.failed⟩
    · rw [← List.append_assoc, ← haccepted]
      exact hnext.received
    · rw [hnext.accepted b hb, haccepted, List.append_assoc]

/-- Only the answer is another. -/
theorem Keeps.relabel {bytes : List UInt8} {outcome : Outcome WriteStream α}
    {outcome' : Outcome WriteStream β} (h : Keeps stream bytes outcome)
    (hstream : outcome'.stream = outcome.stream)
    (hok : ∀ b, outcome'.result = .ok b → ∃ a, outcome.result = .ok a)
    (herror : ∀ error, outcome'.result = .error error → outcome.result = .error error) :
    Keeps stream bytes outcome' := by
  refine ⟨hstream ▸ h.capacity, hstream ▸ h.received, fun b hb => ?_, fun hcounts b hb => ?_,
    fun error hfailed => ?_⟩
  · obtain ⟨a, ha⟩ := hok b hb
    exact hstream ▸ h.accepted a ha
  · obtain ⟨a, ha⟩ := hok b hb
    exact hstream ▸ h.counts hcounts a ha
  · exact hstream ▸ h.failed error (herror error hfailed)

theorem Keeps.answer {bytes : List UInt8} {outcome : Outcome WriteStream α}
    (h : Keeps stream bytes outcome) (answer : α → β) :
    Keeps stream bytes (outcome.bind fun stream a => ⟨.ok (answer a), stream, []⟩) := by
  obtain ⟨result, later, events⟩ := outcome
  cases result with
  | error error => exact h.relabel rfl nofun fun _ hfailed => congrArg _ (Except.error.inj hfailed)
  | ok a => exact h.relabel rfl (fun _ _ => ⟨a, rfl⟩) nofun

/-! ## What is counted -/

/-- The stream in front of a sink that has received the same bytes and never fails. -/
def reliable (stream : WriteStream) : WriteStream :=
  { stream with sink := { stream.sink with behaviour := .faultless } }

theorem alongside_reliable (stream : WriteStream) : stream.Alongside stream.reliable :=
  ⟨rfl, rfl, rfl, rfl, rfl, SinkBehaviour.neverFails_faultless⟩

theorem faultless_reliable (hlive : stream.state.isOver = false) (hcounts : stream.Counts) :
    stream.reliable.Faultless :=
  ⟨SinkBehaviour.neverFails_faultless, hlive, hcounts⟩

/-- An operation that goes as it would with a sink that never fails counts what it hands over. -/
theorem counts_of_trails {bytes : List UInt8} {outcome outcome' : Outcome WriteStream α}
    (htrails : Trails stream.reliable outcome outcome')
    (hadds : Adds stream.reliable bytes outcome') {a : α} (hok : outcome.result = .ok a) :
    outcome.stream.Counts := by
  rcases htrails.trails with ⟨-, halong⟩ | ⟨error, herror, -⟩
  · have hflushed := hadds.extended.faultless.flushed
    rw [halong.flushed, halong.data] at hflushed
    exact hflushed
  · cases hok.symm.trans herror

theorem keeps_of_offers {bytes : List UInt8} {outcome : Outcome WriteStream α}
    (hoffers : ∃ offers, Offers stream bytes offers outcome)
    (hcounts : stream.Counts → ∀ a, outcome.result = .ok a → outcome.stream.Counts) :
    Keeps stream bytes outcome := by
  obtain ⟨offers, hoffers⟩ := hoffers
  refine ⟨hoffers.capacity, hoffers.received, hoffers.accepted, hcounts, fun error herror => ?_⟩
  obtain ⟨hstate, cause, hcause⟩ := hoffers.failed error herror
  exact ⟨hstate, stream.path, cause, hcause⟩

theorem flush_keeps (h : stream.state.isOver = false) : Keeps stream [] stream.flush :=
  keeps_of_offers (flush_offers h) fun hcounts _ =>
    counts_of_trails (flush_trails (alongside_reliable stream))
      (flush_adds (faultless_reliable h hcounts))

theorem put_keeps (h : stream.state.isOver = false) {bytes : List UInt8}
    (hlength : bytes.length ≤ stream.capacity) : Keeps stream bytes (stream.put bytes) :=
  keeps_of_offers (put_offers h hlength) fun hcounts _ =>
    counts_of_trails (put_trails (alongside_reliable stream) bytes)
      (put_adds (faultless_reliable h hcounts) hlength)

theorem copy_keeps (h : stream.state.isOver = false) (bytes : List UInt8) :
    Keeps stream bytes (stream.copy bytes) :=
  keeps_of_offers (copy_offers h bytes) fun hcounts _ =>
    counts_of_trails (copy_trails (alongside_reliable stream) bytes)
      (copy_adds (faultless_reliable h hcounts) bytes)

/-! ## The end of a file -/

/-- Flushing and shutting down the sink touches no byte. -/
theorem close_keeps (stream : WriteStream) : Keeps stream [] stream.close := by
  have hreceived : stream.sink.data.toList <+: stream.accepted ++ [] := by
    rw [List.append_nil]
    exact List.prefix_append _ _
  have haccepted : stream.accepted = stream.accepted ++ [] := (List.append_nil _).symm
  unfold close Sink.flush Sink.shutDown
  cases stream.sink.behaviour.flushError with
  | some cause =>
    exact ⟨rfl, hreceived, nofun, fun _ => nofun,
      fun _ herror => ⟨rfl, stream.path, cause, (Except.error.inj herror).symm⟩⟩
  | none =>
    dsimp only
    cases stream.sink.behaviour.shutdownError with
    | some cause =>
      exact ⟨rfl, hreceived, nofun, fun _ => nofun,
        fun _ herror => ⟨rfl, stream.path, cause, (Except.error.inj herror).symm⟩⟩
    | none => exact ⟨rfl, hreceived, fun _ _ => haccepted, fun hcounts _ _ => hcounts, nofun⟩

theorem finish_eq_bind (h : stream.state.isOver = false) :
    stream.finish =
      (flush { stream with state := .finalizing }).bind fun stream _ => stream.close :=
  live_of_not_over h _

theorem finish_keeps (h : stream.state.isOver = false) : Keeps stream [] stream.finish := by
  set last : WriteStream := { stream with state := .finalizing }
  have hflush : last.Keeps [] last.flush := flush_keeps rfl
  have hfinish : last.Keeps [] (last.flush.bind fun stream _ => stream.close) :=
    hflush.bind fun _ _ => close_keeps _
  obtain ⟨hcapacity, hreceived, haccepted, hcounts, hfailed⟩ := hfinish
  rw [finish_eq_bind h]
  exact ⟨hcapacity, hreceived, haccepted, hcounts, hfailed⟩

/-- What a stream gives as written when it is closed is what it has counted. -/
theorem close_total {total : Nat} (h : stream.close.result = .ok total) :
    stream.close.stream.flushed = total := by
  unfold close Sink.flush Sink.shutDown at h ⊢
  cases hflush : stream.sink.behaviour.flushError with
  | some cause =>
    rw [hflush] at h
    cases h
  | none =>
    rw [hflush] at h
    dsimp only at h ⊢
    cases hshut : stream.sink.behaviour.shutdownError with
    | some cause =>
      rw [hshut] at h
      cases h
    | none =>
      rw [hshut] at h
      exact Except.ok.inj h

theorem finish_total {total : Nat} (h : stream.finish.result = .ok total) :
    stream.finish.stream.flushed = total := by
  set last : WriteStream := { stream with state := .finalizing }
  have hfinish : stream.finish = last.flush.bind fun stream _ => stream.close := live_eq_of_ok h
  rw [hfinish] at h ⊢
  unfold Outcome.bind at h ⊢
  cases hflush : last.flush.result with
  | error error =>
    rw [hflush] at h
    cases h
  | ok =>
    rw [hflush] at h
    exact close_total h

/-- **A stream that counts is finished only if its sink holds all that was accepted**, and gives the
number of these bytes. -/
theorem finish_holds {total : Nat} (hcounts : stream.Counts)
    (h : stream.finish.result = .ok total) :
    stream.finish.stream.sink.data.toList = stream.accepted ∧ total = stream.accepted.length := by
  have hlive : stream.state.isOver = false := by
    refine eq_false_of_ne_true fun hover => ?_
    unfold finish live at h
    rw [if_pos hover] at h
    cases h
  have hkeeps := finish_keeps hlive
  have hdata : stream.finish.stream.sink.data.toList = stream.accepted := by
    have haccepted := hkeeps.accepted total h
    unfold accepted at haccepted
    rwa [(finish_completed h).buffered, List.append_nil, List.append_nil] at haccepted
  refine ⟨hdata, ?_⟩
  rw [← finish_total h, hkeeps.counts hcounts total h, ← hdata, Array.length_toList]

/-! ## Streams that are over -/

theorem live_of_over {f : WriteStream → Outcome WriteStream α} (h : stream.state.isOver = true) :
    stream.live f = ⟨.error (.poisoned stream.path), stream, []⟩ := by
  unfold live
  rw [if_pos h]

theorem abort_of_over (h : stream.state.isOver = true) : stream.abort = stream := by
  obtain ⟨sink, buffer, flushed, state, path⟩ := stream
  unfold abort
  cases state with
  | closed => rfl
  | errored => rfl
  | ready => cases h
  | streaming => cases h
  | finalizing => cases h

theorem reserve_too_large (h : stream.state.isOver = false) {count : Nat}
    (hlarge : stream.capacity < count) :
    stream.reserve count =
      ⟨.error (.invalidValue stream.path (.windowTooLarge count stream.capacity)), stream, []⟩ := by
  unfold reserve
  rw [live_of_not_over h, if_pos hlarge]

end WriteStream

/-! ## Runs -/

namespace WriteOperation

variable {stream : WriteStream}

/-- The bytes that an operation adds if it succeeds. -/
def payload : WriteOperation → List UInt8
  | reserve _ bytes | copy bytes => bytes
  | flush | finish | abort => []

/-- Whether a reserved window is filled as a whole. -/
def Fills : WriteOperation → Prop
  | reserve count bytes => bytes.length = count
  | copy _ | flush | finish | abort => True

/-- The stream after some operations, whether they succeed or not. -/
def after (stream : WriteStream) (operations : List WriteOperation) : WriteStream :=
  operations.foldl (fun stream operation => (run stream operation).stream) stream

/-- The payload of an operation if it succeeds. -/
def gained (stream : WriteStream) (operation : WriteOperation) : List UInt8 :=
  match (run stream operation).result with
  | .ok _ => operation.payload
  | .error _ => []

/-- The payloads of the operations that succeed, in order. -/
def added (stream : WriteStream) : List WriteOperation → List UInt8
  | [] => []
  | operation :: rest => gained stream operation ++ added (run stream operation).stream rest

theorem gained_of_ok {operation : WriteOperation} {answer : WriteAnswer}
    (h : (run stream operation).result = .ok answer) :
    gained stream operation = operation.payload := by
  unfold gained
  rw [h]

theorem gained_of_error {operation : WriteOperation} {error : Error}
    (h : (run stream operation).result = .error error) : gained stream operation = [] := by
  unfold gained
  rw [h]

/-- A window that is filled as a whole is put as it is. -/
theorem run_reserve_keeps (h : stream.state.isOver = false) {bytes : List UInt8}
    (hlength : bytes.length ≤ stream.capacity) :
    stream.Keeps bytes (run stream (.reserve bytes.length bytes)) := by
  have hput := stream.put_keeps h hlength
  have hwindow := @WriteStream.length_reserve stream bytes.length
  have hrun : run stream (.reserve bytes.length bytes) =
      (stream.reserve bytes.length).bind fun stream window => ⟨.ok (.window window),
        stream.fill (bytes.take bytes.length ++ window.drop bytes.length), []⟩ := rfl
  rw [hrun]
  unfold WriteStream.put at hput
  generalize stream.reserve bytes.length = reserved at hput hwindow ⊢
  obtain ⟨result, later, events⟩ := reserved
  cases result with
  | error error =>
    exact hput.relabel rfl nofun fun _ hfailed => congrArg _ (Except.error.inj hfailed)
  | ok window =>
    refine hput.relabel ?_ (fun _ _ => ⟨(), rfl⟩) nofun
    have hnone : window.drop bytes.length = [] :=
      List.drop_of_length_le (Nat.le_of_eq (hwindow rfl))
    show later.fill (bytes.take bytes.length ++ window.drop bytes.length) = later.fill bytes
    rw [hnone, List.take_length, List.append_nil]

/-- What one operation does to a stream, whatever its state and its sink. -/
structure Records (stream : WriteStream) (operation : WriteOperation) : Prop where
  capacity : (run stream operation).stream.capacity = stream.capacity
  received : (run stream operation).stream.sink.data.toList <+:
    stream.accepted ++ operation.payload
  accepted : (run stream operation).Unbroken →
    (run stream operation).stream.accepted = stream.accepted ++ gained stream operation
  counts : (run stream operation).Unbroken → stream.Counts → (run stream operation).stream.Counts
  broken : ∀ path cause, (run stream operation).result = .error (.io path cause) →
    stream.state.isOver = false ∧ (run stream operation).stream.state = .errored

/-- An operation that adds its payload, or fails with the sink. -/
theorem records_of_keeps (hlive : stream.state.isOver = false) {operation : WriteOperation}
    (h : stream.Keeps operation.payload (run stream operation)) : Records stream operation := by
  refine ⟨h.capacity, h.received, fun hunbroken => ?_, fun hunbroken hcounts => ?_,
    fun path cause hfailed => ⟨hlive, (h.failed _ hfailed).1⟩⟩
  all_goals cases hresult : (run stream operation).result with
    | error error =>
      obtain ⟨-, path, cause, rfl⟩ := h.failed error hresult
      exact absurd hresult (hunbroken path cause)
    | ok answer => ?_
  · rw [gained_of_ok hresult]
    exact h.accepted answer hresult
  · exact h.counts hcounts answer hresult

/-- An operation that leaves the stream as it is and adds nothing. -/
theorem records_of_unchanged {operation : WriteOperation}
    (hstream : (run stream operation).stream = stream) (hunbroken : (run stream operation).Unbroken)
    (hgained : gained stream operation = []) : Records stream operation := by
  refine ⟨congrArg _ hstream, ?_, fun _ => ?_, fun _ hcounts => ?_,
    fun path cause hfailed => absurd hfailed (hunbroken path cause)⟩
  · rw [hstream]
    exact (List.prefix_append _ _).trans (List.prefix_append _ _)
  · rw [hstream, hgained, List.append_nil]
  · rw [hstream]
    exact hcounts

theorem unchanged_of_refused {operation : WriteOperation} {error : Error}
    (hrefused : run stream operation = ⟨.error error, stream, []⟩)
    (h : ∀ path cause, error ≠ .io path cause) :
    (run stream operation).stream = stream ∧ (run stream operation).Unbroken ∧
      gained stream operation = [] := by
  refine ⟨congrArg Outcome.stream hrefused, fun path cause hfailed => ?_,
    gained_of_error (congrArg Outcome.result hrefused)⟩
  rw [hrefused] at hfailed
  exact h path cause (Except.error.inj hfailed)

theorem run_refused (h : stream.state.isOver = true) {operation : WriteOperation}
    (hoperation : operation ≠ .abort) :
    run stream operation = ⟨.error (.poisoned stream.path), stream, []⟩ := by
  cases operation with
  | reserve count bytes =>
    simp only [run, WriteStream.reserve, WriteStream.live_of_over h, Outcome.bind]
  | copy bytes => simp only [run, WriteStream.copy, WriteStream.live_of_over h, Outcome.bind]
  | flush => simp only [run, WriteStream.flush, WriteStream.live_of_over h, Outcome.bind]
  | finish => simp only [run, WriteStream.finish, WriteStream.live_of_over h, Outcome.bind]
  | abort => exact absurd rfl hoperation

/-- A stream that is over stays as it is. -/
theorem run_of_over (h : stream.state.isOver = true) (operation : WriteOperation) :
    (run stream operation).stream = stream ∧ (run stream operation).Unbroken ∧
      gained stream operation = [] := by
  by_cases habort : operation = .abort
  · subst habort
    exact ⟨stream.abort_of_over h, nofun, rfl⟩
  · exact unchanged_of_refused (run_refused h habort) (by simp)

/-- An abort touches no byte. -/
theorem abort_keeps (stream : WriteStream) : stream.Keeps [] (run stream .abort) := by
  have hreceived : stream.sink.data.toList <+: stream.accepted ++ [] := by
    rw [List.append_nil]
    exact List.prefix_append _ _
  show stream.Keeps [] ⟨.ok WriteAnswer.nothing, stream.abort, []⟩
  unfold WriteStream.abort
  split
  · exact ⟨rfl, hreceived, fun _ _ => (List.append_nil _).symm, fun hcounts _ _ => hcounts, nofun⟩
  · exact ⟨rfl, hreceived, fun _ _ => (List.append_nil _).symm, fun hcounts _ _ => hcounts, nofun⟩

/-- **An operation adds its payload or nothing**, and only its payload can be lost with the sink. -/
theorem run_records (stream : WriteStream) {operation : WriteOperation} (hfills : operation.Fills) :
    Records stream operation := by
  by_cases hover : stream.state.isOver = true
  · obtain ⟨hstream, hunbroken, hgained⟩ := run_of_over hover operation
    exact records_of_unchanged hstream hunbroken hgained
  have hlive := eq_false_of_ne_true hover
  cases operation with
  | reserve count bytes =>
    obtain rfl : bytes.length = count := hfills
    by_cases hlarge : stream.capacity < bytes.length
    · have hrefused : run stream (.reserve bytes.length bytes) = ⟨.error (.invalidValue stream.path
          (.windowTooLarge bytes.length stream.capacity)), stream, []⟩ := by
        simp only [run, WriteStream.reserve_too_large hlive hlarge, Outcome.bind]
      obtain ⟨hstream, hunbroken, hgained⟩ := unchanged_of_refused hrefused (by simp)
      exact records_of_unchanged hstream hunbroken hgained
    · exact records_of_keeps hlive (run_reserve_keeps hlive (Nat.le_of_not_lt hlarge))
  | copy bytes => exact records_of_keeps hlive ((WriteStream.copy_keeps hlive bytes).answer _)
  | flush => exact records_of_keeps hlive ((WriteStream.flush_keeps hlive).answer _)
  | finish => exact records_of_keeps hlive ((WriteStream.finish_keeps hlive).answer _)
  | abort => exact records_of_keeps hlive (abort_keeps stream)

theorem run_finish_ok {total : Nat} (h : (run stream .finish).result = .ok (.total total)) :
    stream.finish.result = .ok total ∧ (run stream .finish).stream = stream.finish.stream := by
  simp only [run] at h ⊢
  generalize stream.finish = finished at h ⊢
  obtain ⟨result, later, events⟩ := finished
  cases result with
  | error error => cases h
  | ok written =>
    obtain rfl : written = total := WriteAnswer.total.inj (Except.ok.inj h)
    exact ⟨rfl, rfl⟩

/-! ### Operations one after the other -/

theorem after_append (stream : WriteStream) (before later : List WriteOperation) :
    after stream (before ++ later) = after (after stream before) later :=
  List.foldl_append

theorem after_capacity (stream : WriteStream) {operations : List WriteOperation}
    (hfills : ∀ operation ∈ operations, operation.Fills) :
    (after stream operations).capacity = stream.capacity := by
  induction operations generalizing stream with
  | nil => rfl
  | cons operation rest ih =>
    obtain ⟨hfirst, hrest⟩ := List.forall_mem_cons.mp hfills
    exact (ih (run stream operation).stream hrest).trans (run_records stream hfirst).capacity

/-- As long as the sink does not fail, what is added is accepted and counted. -/
theorem after_accepted {operations : List WriteOperation}
    (hfills : ∀ operation ∈ operations, operation.Fills)
    (hunbroken : ∀ outcome ∈ runAll stream operations, outcome.Unbroken) (hcounts : stream.Counts) :
    (after stream operations).accepted = stream.accepted ++ added stream operations ∧
      (after stream operations).Counts := by
  induction operations generalizing stream with
  | nil => exact ⟨(List.append_nil _).symm, hcounts⟩
  | cons operation rest ih =>
    obtain ⟨hfirst, hrest⟩ := List.forall_mem_cons.mp hfills
    obtain ⟨hsound, hlater⟩ := List.forall_mem_cons.mp hunbroken
    have hrecords := run_records stream hfirst
    obtain ⟨haccepted, hcounted⟩ := ih hrest hlater (hrecords.counts hsound hcounts)
    refine ⟨?_, hcounted⟩
    show (after (run stream operation).stream rest).accepted =
      stream.accepted ++ (gained stream operation ++ added (run stream operation).stream rest)
    rw [haccepted, hrecords.accepted hsound, List.append_assoc]

theorem after_of_over (h : stream.state.isOver = true) (operations : List WriteOperation) :
    after stream operations = stream := by
  induction operations with
  | nil => rfl
  | cons operation rest ih =>
    show after (run stream operation).stream rest = stream
    rw [(run_of_over h operation).1]
    exact ih

/-- A sink that failed ends the stream for good, so before one that goes on it never did. -/
theorem unbroken_of_live {operations : List WriteOperation}
    (hfills : ∀ operation ∈ operations, operation.Fills)
    (hlive : (after stream operations).state.isOver = false) :
    ∀ outcome ∈ runAll stream operations, outcome.Unbroken := by
  induction operations generalizing stream with
  | nil => exact List.forall_mem_nil _
  | cons operation rest ih =>
    obtain ⟨hfirst, hrest⟩ := List.forall_mem_cons.mp hfills
    refine List.forall_mem_cons.mpr ⟨fun path cause hfailed => ?_, ih hrest hlive⟩
    have hstate := ((run_records stream hfirst).broken path cause hfailed).2
    have hover : (run stream operation).stream.state.isOver = true := by
      rw [hstate]
      rfl
    have hlast : (after (run stream operation).stream rest).state.isOver = false := hlive
    rw [after_of_over hover, hover] at hlast
    cases hlast

end WriteOperation

namespace WriteStream

open WriteOperation

/-- A fresh stream that keeps every byte, in order, through some operations. -/
structure Faithful (fresh : WriteStream) (operations : List WriteOperation) : Prop where
  /-- As long as the sink does not fail, it holds with the buffer what was added. -/
  accepted : (∀ outcome ∈ runAll fresh operations, outcome.Unbroken) →
    (after fresh operations).sink.data.toList ++ (after fresh operations).buffer.bytes =
        added fresh operations ∧
      (after fresh operations).position = (added fresh operations).length
  cursor : (after fresh operations).buffer.size ≤ fresh.capacity
  /-- When the stream is finished, the sink holds all that was added. -/
  finished : ∀ total, (run (after fresh operations) .finish).result = .ok (.total total) →
    (run (after fresh operations) .finish).stream.sink.data.toList = added fresh operations ∧
      total = (added fresh operations).length
  /-- A sink that failed holds some first bytes of what was added and was being added. -/
  failed : ∀ before operation later path cause, operations = before ++ operation :: later →
    (run (after fresh before) operation).result = .error (.io path cause) →
      (after fresh operations).sink.data.toList <+: added fresh before ++ operation.payload

theorem counts_create (behaviour : SinkBehaviour) (capacity : Nat) (path : String) :
    (create behaviour capacity path).Counts := rfl

/-- A stream that goes on has accepted what was added and counts it. -/
theorem accepted_of_live (behaviour : SinkBehaviour) (capacity : Nat) (path : String)
    {operations : List WriteOperation} (hfills : ∀ operation ∈ operations, operation.Fills)
    (hlive : (after (create behaviour capacity path) operations).state.isOver = false) :
    (after (create behaviour capacity path) operations).accepted =
        added (create behaviour capacity path) operations ∧
      (after (create behaviour capacity path) operations).Counts :=
  after_accepted hfills (unbroken_of_live hfills hlive) (counts_create behaviour capacity path)

/-- **A write stream keeps every byte, in order**, whatever its capacity and its sink. -/
theorem faithful_after (behaviour : SinkBehaviour) (capacity : Nat) (path : String)
    {operations : List WriteOperation} (hfills : ∀ operation ∈ operations, operation.Fills) :
    (create behaviour capacity path).Faithful operations where
  accepted := by
    intro hunbroken
    obtain ⟨haccepted, hcounts⟩ :=
      after_accepted hfills hunbroken (counts_create behaviour capacity path)
    exact ⟨haccepted, hcounts.position.trans (congrArg List.length haccepted)⟩
  cursor := by
    rw [← after_capacity _ hfills]
    exact Buffer.size_le _
  finished := by
    intro total htotal
    obtain ⟨hok, hstream⟩ := run_finish_ok htotal
    have hlive : (after (create behaviour capacity path) operations).state.isOver = false := by
      refine eq_false_of_ne_true fun hover => ?_
      rw [run_refused hover (by simp)] at htotal
      cases htotal
    obtain ⟨haccepted, hcounts⟩ := accepted_of_live behaviour capacity path hfills hlive
    obtain ⟨hdata, hlength⟩ := finish_holds hcounts hok
    rw [hstream, hdata, hlength]
    exact ⟨haccepted, congrArg List.length haccepted⟩
  failed := by
    rintro before operation later failedPath cause rfl hfailed
    obtain ⟨hbefore, hrest⟩ := List.forall_mem_append.mp hfills
    have hrecords := run_records (after (create behaviour capacity path) before)
      (hrest operation List.mem_cons_self)
    obtain ⟨hlive, hstate⟩ := hrecords.broken failedPath cause hfailed
    have haccepted := (accepted_of_live behaviour capacity path hbefore hlive).1
    have hreceived := hrecords.received
    rw [haccepted] at hreceived
    -- nothing more reaches the sink of a stream that failed
    have hover :
        (run (after (create behaviour capacity path) before) operation).stream.state.isOver =
          true := by
      rw [hstate]
      rfl
    rw [after_append]
    show (after (run (after _ before) operation).stream later).sink.data.toList <+: _
    rw [after_of_over hover]
    exact hreceived

/-- A sink that accepts one byte at a time and fails behind the fourth. -/
def stingy : SinkBehaviour where
  write := fun before _ =>
    if before < 4 then .accepted 1 else .failed ⟨"Other", "disk gone"⟩

/-- A window of two bytes, a payload of three, and the end. -/
def fiveBytes : List WriteOperation := [.reserve 2 [1, 2], .copy [3, 4, 5], .finish]

theorem faithful_after_fiveBytes :
    (∀ operation ∈ fiveBytes, operation.Fills) ∧ (create stingy 3 "x").Faithful fiveBytes := by
  have hfills : ∀ operation ∈ fiveBytes, operation.Fills := by
    simp [fiveBytes, WriteOperation.Fills]
  exact ⟨hfills, faithful_after stingy 3 "x" hfills⟩

end WriteStream

end ByteLayout
