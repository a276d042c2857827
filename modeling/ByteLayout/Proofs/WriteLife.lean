import ByteLayout.Proofs.WriteHistory

/-!
# The life of a write stream

A stream is in use until it is closed or errored. `Turns next outcome` says what an operation makes
of the state of a stream in use: if it succeeds the state is `next`, and it fails only with the
sink, which leaves the stream errored. So a stream is closed by a finish that succeeds and by
nothing else, and only an abort or a failure of the sink makes it errored.

**Step** (`WriteOperation.run_turns`). An operation turns a stream in use into the state it names
(`WriteOperation.turn`), except for a window larger than the buffer, which is refused and changes
nothing.

**Theorem (`WriteStream.lasting_after`).** After any operations a stream is not being finalized.
If it is closed or errored, whatever is done later is refused, leaves it as it is and asks nothing
of the sink.
-/

namespace ByteLayout

namespace WriteStream

variable {α β : Type} {stream : WriteStream} {next last : StreamState}

/-! ## Turns -/

/-- What becomes of the state of a stream: `next` after a success, and after a failure of the sink,
the only one there is, it is errored. -/
structure Turns (next : StreamState) (outcome : Outcome WriteStream α) : Prop where
  ok : ∀ a, outcome.result = .ok a → outcome.stream.state = next
  failed : ∀ error, outcome.result = .error error →
    outcome.stream.state = .errored ∧ ∃ path cause, error = .io path cause

theorem turns_ok {a : α} {events : List Event} (h : stream.state = next) :
    Turns next ⟨.ok a, stream, events⟩ :=
  ⟨fun _ _ => h, nofun⟩

theorem turns_fail (stream : WriteStream) (cause : IoError) (events : List Event) :
    Turns next (stream.fail cause events : Outcome WriteStream α) :=
  ⟨nofun, fun _ herror => ⟨rfl, stream.path, cause, (Except.error.inj herror).symm⟩⟩

theorem Turns.bind {outcome : Outcome WriteStream α} {f : WriteStream → α → Outcome WriteStream β}
    (h : Turns next outcome)
    (hf : ∀ later a, later.state = next → Turns last (f later a)) :
    Turns last (outcome.bind f) := by
  obtain ⟨result, later, events⟩ := outcome
  cases result with
  | error error => exact ⟨nofun, fun other hother => Except.error.inj hother ▸ h.failed error rfl⟩
  | ok a =>
    have hnext := hf later a (h.ok a rfl)
    exact ⟨hnext.ok, hnext.failed⟩

/-- The answer of an operation is put in other words. -/
theorem Turns.answer {outcome : Outcome WriteStream α} (h : Turns next outcome) (answer : α → β) :
    Turns next (outcome.bind fun stream a => ⟨.ok (answer a), stream, []⟩) :=
  h.bind fun _ _ hstate => turns_ok hstate

/-! ## The operations -/

theorem drain_turns (stream : WriteStream) : Turns stream.state stream.drain := by
  unfold drain
  dsimp only
  split
  · exact turns_fail _ _ _
  · exact turns_ok rfl

theorem flush_turns (h : stream.state.isOver = false) : Turns stream.state stream.flush := by
  unfold flush
  rw [live_of_not_over h]
  split
  · exact turns_ok rfl
  · exact drain_turns stream

theorem reserve_turns (h : stream.state.isOver = false) {count : Nat}
    (hcount : count ≤ stream.capacity) : Turns .streaming (stream.reserve count) := by
  have hfreed : Turns stream.state (stream.freed count) := by
    unfold freed
    split
    · exact flush_turns h
    · exact turns_ok rfl
  unfold reserve
  rw [live_of_not_over h, if_neg (Nat.not_lt.mpr hcount)]
  exact hfreed.bind fun _ _ _ => turns_ok rfl

/-- However often the buffer is flushed on the way, bytes that go through it leave the state as it
is. -/
theorem pump_turns {stream : WriteStream} (h : stream.state.isOver = false) (bytes : List UInt8) :
    Turns stream.state (stream.pump bytes []) := by
  match bytes with
  | [] =>
    rw [pump]
    exact turns_ok rfl
  | byte :: rest =>
    have hfreed : Turns stream.state stream.freedIfFull := by
      unfold freedIfFull
      split
      · exact flush_turns h
      · exact turns_ok rfl
    rw [pump_cons_eq_bind]
    refine hfreed.bind fun later _ hstate => ?_
    unfold pour
    split
    · exact turns_ok hstate
    · next room _ =>
      have hfilled : (later.fill (byte :: rest)).state = stream.state := hstate
      rw [← hfilled] at h ⊢
      exact pump_turns h (rest.drop room)
termination_by bytes.length
decreasing_by simp only [List.length_cons, List.length_drop]; omega

theorem copy_turns (h : stream.state.isOver = false) (bytes : List UInt8) :
    Turns .streaming (stream.copy bytes) := by
  unfold copy
  rw [live_of_not_over h]
  set streaming : WriteStream := { stream with state := .streaming }
  exact pump_turns (show streaming.state.isOver = false from rfl) bytes

theorem close_turns (stream : WriteStream) : Turns .closed stream.close := by
  unfold close
  dsimp only
  split
  · exact turns_fail _ _ _
  · split
    · exact turns_fail _ _ _
    · exact turns_ok rfl

/-- **A stream that is finished is closed**, and one that cannot be finished is errored, wherever
the sink fails on the way. -/
theorem finish_turns (h : stream.state.isOver = false) : Turns .closed stream.finish := by
  rw [finish_eq_bind h]
  set last : WriteStream := { stream with state := .finalizing }
  exact (flush_turns (show last.state.isOver = false from rfl)).bind fun later _ _ =>
    close_turns later

end WriteStream

/-! ## Runs -/

namespace WriteOperation

variable {stream : WriteStream}

/-- The state in which an operation that succeeds leaves a stream in use. -/
def turn (state : StreamState) : WriteOperation → StreamState
  | reserve _ _ | copy _ => .streaming
  | flush => state
  | finish => .closed
  | abort => .errored

/-- The answer to an operation on a stream that is over. -/
def refusal (path : String) : WriteOperation → Except Error WriteAnswer
  | reserve _ _ | copy _ | flush | finish => .error (.poisoned path)
  | abort => .ok .nothing

/-- A window larger than the buffer is refused, and nothing changes. -/
theorem run_reserve_too_large (h : stream.state.isOver = false) {count : Nat}
    (hlarge : stream.capacity < count) (bytes : List UInt8) :
    run stream (.reserve count bytes) =
      ⟨.error (.invalidValue stream.path (.windowTooLarge count stream.capacity)), stream, []⟩ := by
  unfold run
  dsimp only
  rw [WriteStream.reserve_too_large h hlarge]
  rfl

theorem run_abort (h : stream.state.isOver = false) :
    run stream .abort = ⟨.ok .nothing, { stream with state := .errored }, []⟩ := by
  have hopen : stream.state ≠ .closed := by
    intro hclosed
    rw [hclosed] at h
    cases h
  unfold run WriteStream.abort
  dsimp only
  rw [if_neg hopen]

/-- **An operation turns a stream in use** into the state it names, unless its window is too
large. -/
theorem run_turns (h : stream.state.isOver = false) (operation : WriteOperation) :
    WriteStream.Turns (operation.turn stream.state) (run stream operation) ∨
      ∃ count bytes, operation = .reserve count bytes ∧ stream.capacity < count := by
  cases operation with
  | reserve count bytes =>
    by_cases hlarge : stream.capacity < count
    · exact .inr ⟨count, bytes, rfl, hlarge⟩
    · left
      unfold run
      exact (WriteStream.reserve_turns h (Nat.le_of_not_lt hlarge)).bind
        fun _ _ hstate => ⟨fun _ _ => hstate, nofun⟩
  | copy bytes => exact .inl ((WriteStream.copy_turns h bytes).answer _)
  | flush => exact .inl ((WriteStream.flush_turns h).answer _)
  | finish => exact .inl ((WriteStream.finish_turns h).answer _)
  | abort =>
    rw [run_abort h]
    exact .inl (WriteStream.turns_ok rfl)

/-- What an operation makes of a stream in use: it succeeds, its sink fails, or its window is
refused. -/
theorem run_cases (h : stream.state.isOver = false) (operation : WriteOperation) :
    (∃ answer, (run stream operation).result = .ok answer ∧
      (run stream operation).stream.state = operation.turn stream.state) ∨
    (∃ path cause, (run stream operation).result = .error (.io path cause) ∧
      (run stream operation).stream.state = .errored) ∨
    ∃ path reason, run stream operation = ⟨.error (.invalidValue path reason), stream, []⟩ := by
  rcases run_turns h operation with hturns | ⟨count, bytes, rfl, hlarge⟩
  · cases hresult : (run stream operation).result with
    | ok answer => exact .inl ⟨answer, rfl, hturns.ok answer hresult⟩
    | error error =>
      obtain ⟨hstate, path, cause, rfl⟩ := hturns.failed error hresult
      exact .inr (.inl ⟨path, cause, rfl, hstate⟩)
  · exact .inr (.inr ⟨_, _, run_reserve_too_large h hlarge bytes⟩)

/-- **A stream that is over refuses whatever is done to it**, and asks nothing of its sink. -/
theorem run_eq_refusal (h : stream.state.isOver = true) (operation : WriteOperation) :
    run stream operation = ⟨operation.refusal stream.path, stream, []⟩ := by
  by_cases habort : operation = .abort
  · subst habort
    unfold run
    dsimp only
    rw [stream.abort_of_over h]
    rfl
  · rw [run_refused h habort]
    cases operation with
    | abort => exact absurd rfl habort
    | _ => rfl

theorem runAll_of_over (h : stream.state.isOver = true) (operations : List WriteOperation) :
    runAll stream operations =
      operations.map fun operation => ⟨operation.refusal stream.path, stream, []⟩ := by
  induction operations with
  | nil => rfl
  | cons operation rest ih => simp only [runAll, run_eq_refusal h, ih, List.map_cons]

/-- A stream that is not being finalized is not left so. -/
theorem run_settled (h : stream.state ≠ .finalizing) (operation : WriteOperation) :
    (run stream operation).stream.state ≠ .finalizing := by
  by_cases hover : stream.state.isOver = true
  · rw [run_eq_refusal hover]
    exact h
  rcases run_cases (eq_false_of_ne_true hover) operation with
    ⟨_, -, hstate⟩ | ⟨_, _, -, hstate⟩ | ⟨_, _, hrefused⟩
  · rw [hstate]
    cases operation with
    | flush => exact h
    | _ => exact nofun
  · rw [hstate]
    exact nofun
  · rw [hrefused]
    exact h

theorem after_settled (h : stream.state ≠ .finalizing) (operations : List WriteOperation) :
    (after stream operations).state ≠ .finalizing := by
  induction operations generalizing stream with
  | nil => exact h
  | cons operation rest ih => exact ih (run_settled h operation)

end WriteOperation

namespace WriteStream

open WriteOperation

variable {stream : WriteStream}

/-- What ends a stream, and that it ends for good. -/
structure Lasting (stream : WriteStream) : Prop where
  /-- Between operations a stream is not being finalized. -/
  settled : stream.state ≠ .finalizing
  /-- A finish that succeeds closes the stream, -/
  closes : ∀ answer, (run stream .finish).result = .ok answer →
    (run stream .finish).stream.state = .closed
  /-- and a stream in use is closed by nothing else. -/
  closed : stream.state.isOver = false → ∀ operation,
    (run stream operation).stream.state = .closed →
      operation = .finish ∧ ∃ answer, (run stream operation).result = .ok answer
  /-- A failure of the sink makes the stream errored, -/
  fails : ∀ operation path cause, (run stream operation).result = .error (.io path cause) →
    (run stream operation).stream.state = .errored
  /-- and so does an abort unless the stream is closed; -/
  aborts : stream.state ≠ .closed → (run stream .abort).stream.state = .errored
  /-- a stream in use is made errored by nothing else. -/
  errored : stream.state.isOver = false → ∀ operation,
    (run stream operation).stream.state = .errored →
      operation = .abort ∨ ∃ path cause, (run stream operation).result = .error (.io path cause)
  /-- If the stream is over, whatever is done later is refused, leaves it as it is and causes no
  event at the sink. -/
  lasts : stream.state.isOver = true → ∀ later, runAll stream later =
    later.map fun operation => ⟨operation.refusal stream.path, stream, []⟩
  /-- A stream in use refuses a window larger than its buffer, and stays as it is. -/
  refuses : stream.state.isOver = false → ∀ count bytes, stream.capacity < count →
    run stream (.reserve count bytes) =
      ⟨.error (.invalidValue stream.path (.windowTooLarge count stream.capacity)), stream, []⟩

theorem lasting_of_settled (h : stream.state ≠ .finalizing) : stream.Lasting where
  settled := h
  closes := by
    intro answer hok
    by_cases hover : stream.state.isOver = true
    · rw [run_eq_refusal hover] at hok
      cases hok
    · exact ((finish_turns (eq_false_of_ne_true hover)).answer _).ok answer hok
  closed := by
    intro hlive operation hclosed
    rcases run_cases hlive operation with
      ⟨answer, hok, hstate⟩ | ⟨_, _, -, hstate⟩ | ⟨_, _, hrefused⟩
    · refine ⟨?_, answer, hok⟩
      have hturn : operation.turn stream.state = .closed := hstate.symm.trans hclosed
      cases operation with
      | finish => rfl
      | flush =>
        rw [show stream.state = .closed from hturn] at hlive
        cases hlive
      | _ => cases hturn
    · cases hstate.symm.trans hclosed
    · rw [hrefused] at hclosed
      rw [show stream.state = .closed from hclosed] at hlive
      cases hlive
  fails := by
    intro operation path cause hfailed
    by_cases hover : stream.state.isOver = true
    · rw [run_eq_refusal hover] at hfailed
      cases operation <;> cases hfailed
    rcases run_cases (eq_false_of_ne_true hover) operation with
      ⟨answer, hok, -⟩ | ⟨_, _, -, hstate⟩ | ⟨_, _, hrefused⟩
    · cases hok.symm.trans hfailed
    · exact hstate
    · rw [hrefused] at hfailed
      cases hfailed
  aborts := by
    intro hopen
    show stream.abort.state = .errored
    unfold abort
    rw [if_neg hopen]
  errored := by
    intro hlive operation herrored
    rcases run_cases hlive operation with
      ⟨answer, -, hstate⟩ | ⟨path, cause, hfailed, -⟩ | ⟨_, _, hrefused⟩
    · have hturn : operation.turn stream.state = .errored := hstate.symm.trans herrored
      cases operation with
      | abort => exact .inl rfl
      | flush =>
        rw [show stream.state = .errored from hturn] at hlive
        cases hlive
      | _ => cases hturn
    · exact .inr ⟨path, cause, hfailed⟩
    · rw [hrefused] at herrored
      rw [show stream.state = .errored from herrored] at hlive
      cases hlive
  lasts hover later := runAll_of_over hover later
  refuses hlive _ bytes hlarge := run_reserve_too_large hlive hlarge bytes

/-- **A stream that was finished or failed stays so**, whatever was done before and is done later,
and whatever its sink does. -/
theorem lasting_after (behaviour : SinkBehaviour) (capacity : Nat) (path : String)
    (operations : List WriteOperation) :
    (after (create behaviour capacity path) operations).Lasting := by
  have hfresh : (create behaviour capacity path).state ≠ .finalizing := nofun
  exact lasting_of_settled (after_settled hfresh operations)

end WriteStream

end ByteLayout
