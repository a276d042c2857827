import ByteLayout.Stream.Operation
import Mathlib.Logic.Function.Iterate

/-!
# When a read stream asks its source

Waiting for `count` bytes asks the source for one chunk after the other. A stream **wants** a chunk
(`Wants`) as long as too few bytes are there, its source has not ended and nothing has ended the
stream: then waiting is a fill and waiting again (`await_of_wants`), and otherwise nothing is asked
and the answer is known (`await_of_not_wants`). Proofs about waiting follow these two cases
(`waiting`).

**Theorem (`await_asks`).** Waiting asks the source as often as it must, each time for one chunk.

A stream is **sealed** if it is over or its source has ended. **Theorem
(`ReadOperation.runAll_behind`).** Whatever is done to a sealed stream, its source does not matter:
behind any other source the same happens.
-/

namespace ByteLayout

namespace ReadStream

variable {stream : ReadStream} {count : Nat}

/-! ## Waiting -/

/-- Whether the source must be asked: too few bytes are there, and more may come. -/
structure Wants (stream : ReadStream) (count : Nat) : Prop where
  live : stream.state.isOver = false
  short : stream.available < count
  unended : stream.complete = false

/-- The answer to waiting when the source is not asked. -/
def verdict (stream : ReadStream) (count : Nat) : Except Error Unit :=
  if stream.state.isOver then .error (.poisoned stream.path)
  else if count ≤ stream.available then .ok ()
  else .error (.unexpectedEnd stream.path (count - stream.available))

theorem verdict_of_available (hlive : stream.state.isOver = false) (h : count ≤ stream.available) :
    stream.verdict count = .ok () := by
  unfold verdict
  rw [if_neg (ne_true_of_eq_false hlive), if_pos h]

theorem verdict_of_short (hlive : stream.state.isOver = false) (h : stream.available < count) :
    stream.verdict count = .error (.unexpectedEnd stream.path (count - stream.available)) := by
  unfold verdict
  rw [if_neg (ne_true_of_eq_false hlive), if_neg (Nat.not_le.mpr h)]

/-- The events of the past come first, and change nothing else. -/
theorem fillUntil_eq (stream : ReadStream) (count : Nat) (events : List Event) :
    stream.fillUntil count events =
      { stream.await count with events := events.reverse ++ (stream.await count).events } := by
  unfold await
  rw [fillUntil, fillUntil]
  by_cases hover : stream.state.isOver = true
  · simp only [if_pos hover, List.reverse_nil, List.append_nil]
  simp only [if_neg hover]
  by_cases havailable : count ≤ stream.available
  · simp only [dif_pos havailable, List.reverse_nil, List.append_nil]
  simp only [dif_neg havailable]
  by_cases hcomplete : stream.complete = true
  · simp only [dif_pos hcomplete, List.reverse_nil, List.append_nil]
  simp only [dif_neg hcomplete]
  split
  · simp only [List.append_nil, List.reverse_append, List.reverse_reverse]
  · next filled more heq =>
    have hless := outstanding_lt_of_fillOnce_eq havailable hcomplete heq
    rw [fillUntil_eq filled count (more.reverse ++ events),
      fillUntil_eq filled count (more.reverse ++ [])]
    simp only [List.append_nil, List.reverse_append, List.reverse_reverse, List.append_assoc]
termination_by stream.outstanding count
decreasing_by all_goals assumption

/-- A stream that wants nothing asks its source nothing, and stays as it is. -/
theorem await_of_not_wants (h : ¬stream.Wants count) :
    stream.await count = ⟨stream.verdict count, stream, []⟩ := by
  unfold await verdict
  rw [fillUntil]
  by_cases hover : stream.state.isOver = true
  · rw [if_pos hover, if_pos hover]
    rfl
  rw [if_neg hover, if_neg hover]
  by_cases havailable : count ≤ stream.available
  · rw [dif_pos havailable, if_pos havailable]
    rfl
  have hcomplete : stream.complete = true := by
    by_contra hopen
    exact h ⟨eq_false_of_ne_true hover, Nat.lt_of_not_le havailable, eq_false_of_ne_true hopen⟩
  rw [dif_neg havailable, dif_pos hcomplete, if_neg havailable]
  rfl

/-- Bytes that are there are not asked for. -/
theorem await_of_available (hlive : stream.state.isOver = false) (h : count ≤ stream.available) :
    stream.await count = ⟨.ok (), stream, []⟩ := by
  have hrest : ¬stream.Wants count := fun hwants => Nat.not_le.mpr hwants.short h
  rw [await_of_not_wants hrest, verdict_of_available hlive h]

/-- A stream that wants a chunk asks for one, and waits again. -/
theorem await_of_wants (h : stream.Wants count) :
    stream.await count = stream.fillOnce.bind fun later _ => later.await count := by
  rw [await, fillUntil, if_neg (ne_true_of_eq_false h.live), dif_neg (Nat.not_le.mpr h.short),
    dif_neg (ne_true_of_eq_false h.unended)]
  split
  · next error filled more heq =>
    rw [heq]
    simp only [Outcome.bind, List.append_nil, List.reverse_reverse]
  · next filled more heq =>
    rw [heq, fillUntil_eq]
    simp only [Outcome.bind, List.append_nil, List.reverse_reverse]

/-- **What waiting for `count` bytes keeps**: what holds of a stream that wants nothing, and of one
that wants a chunk if it holds of the stream that has got one, holds of every stream. -/
theorem waiting {P : ReadStream → Prop} (count : Nat)
    (rest : ∀ stream, ¬stream.Wants count → P stream)
    (fill : ∀ stream, stream.Wants count →
      (stream.fillOnce.result = .ok () → P stream.fillOnce.stream) → P stream)
    (stream : ReadStream) : P stream := by
  by_cases h : stream.Wants count
  · exact fill stream h fun hok => by
      have hless := outstanding_fillOnce_lt h.short h.unended hok
      exact waiting count rest fill stream.fillOnce.stream
  · exact rest stream h
termination_by stream.outstanding count
decreasing_by assumption

/-! ## Fills -/

/-- The stream after its source was asked for so many chunks. -/
def filled (stream : ReadStream) (times : Nat) : ReadStream :=
  (fun stream => stream.fillOnce.stream)^[times] stream

theorem filled_succ (stream : ReadStream) (times : Nat) :
    stream.filled (times + 1) = (stream.filled times).fillOnce.stream :=
  Function.iterate_succ_apply' _ _ _

/-- The stream with a source that was asked for one chunk. -/
def asking (stream : ReadStream) : ReadStream :=
  { stream with source := (stream.source.read stream.chunk).1, state := .streaming }

/-- What a fill makes of a stream: its source fails, has ended, or gives some bytes. -/
theorem fillOnce_cases (stream : ReadStream) :
    (∃ cause, (stream.source.read stream.chunk).2 = .error cause ∧ stream.fillOnce =
      ⟨.error (.io stream.path cause), { stream.asking with state := .errored }, []⟩) ∨
    ((stream.source.read stream.chunk).2 = .ok [] ∧ stream.fillOnce =
      ⟨.ok (), { stream.asking with complete := true },
        [.trace (.sourceEnded stream.path stream.consumed)]⟩) ∨
    ∃ byte rest, (stream.source.read stream.chunk).2 = .ok (byte :: rest) ∧ stream.fillOnce =
      ⟨.ok (), { stream.asking with resident := stream.resident.push (byte :: rest) },
        [.trace (.filled stream.path (rest.length + 1)
          (stream.resident.push (byte :: rest)).size)]⟩ := by
  unfold fillOnce asking
  dsimp only
  rcases (stream.source.read stream.chunk).2 with cause | (- | ⟨byte, rest⟩)
  · exact .inl ⟨cause, rfl, rfl⟩
  · exact .inr (.inl ⟨rfl, rfl⟩)
  · exact .inr (.inr ⟨byte, rest, rfl, rfl⟩)

/-- **A fill asks for exactly one chunk**, and consumes nothing. -/
theorem fillOnce_asks (stream : ReadStream) :
    stream.fillOnce.stream.source = (stream.source.read stream.chunk).1 ∧
      stream.fillOnce.stream.chunk = stream.chunk ∧
      stream.fillOnce.stream.consumed = stream.consumed ∧
      stream.fillOnce.stream.path = stream.path := by
  rcases fillOnce_cases stream with ⟨_, -, hfill⟩ | ⟨-, hfill⟩ | ⟨_, _, -, hfill⟩ <;>
  · rw [hfill]
    exact ⟨rfl, rfl, rfl, rfl⟩

theorem chunk_filled (stream : ReadStream) (times : Nat) :
    (stream.filled times).chunk = stream.chunk := by
  induction times with
  | zero => rfl
  | succ times ih => rw [filled_succ, (fillOnce_asks _).2.1, ih]

/-- So many fills ask for so many chunks. -/
theorem source_filled (stream : ReadStream) (times : Nat) :
    (stream.filled times).source =
      (fun source => (source.read stream.chunk).1)^[times] stream.source := by
  induction times with
  | zero => rfl
  | succ times ih =>
    rw [filled_succ, (fillOnce_asks _).1, chunk_filled, ih, Function.iterate_succ_apply']

/-- A fill that fails leaves the stream errored, with the bytes that are there. -/
theorem fillOnce_failed {error : Error} (h : stream.fillOnce.result = .error error) :
    (∃ cause, error = .io stream.path cause) ∧ stream.fillOnce.stream.state = .errored ∧
      stream.fillOnce.stream.resident = stream.resident := by
  rcases fillOnce_cases stream with ⟨cause, -, hfill⟩ | ⟨-, hfill⟩ | ⟨_, _, -, hfill⟩
  · rw [hfill] at h ⊢
    exact ⟨⟨cause, (Except.error.inj h).symm⟩, rfl, rfl⟩
  all_goals
    rw [hfill] at h
    cases h

/-- A fill that succeeds leaves the stream in use. -/
theorem fillOnce_live (h : stream.fillOnce.result = .ok ()) :
    stream.fillOnce.stream.state.isOver = false := by
  rcases fillOnce_cases stream with ⟨_, -, hfill⟩ | ⟨-, hfill⟩ | ⟨_, _, -, hfill⟩
  · rw [hfill] at h
    cases h
  all_goals
    rw [hfill]
    rfl

/-- Waiting for `count` bytes asks the source `times` times: the stream wants a chunk each time
before, and none after. -/
structure Asks (stream : ReadStream) (count times : Nat) : Prop where
  wanted : ∀ earlier < times, (stream.filled earlier).Wants count
  enough : ¬(stream.filled times).Wants count
  later : (stream.await count).stream = stream.filled times
  events : (stream.await count).events =
    (List.range times).flatMap fun earlier => (stream.filled earlier).fillOnce.events
  /-- Waiting succeeds if and only if the bytes are there in the end. -/
  result : stream.state.isOver = false →
    ((stream.await count).result = .ok () ↔ count ≤ (stream.filled times).available)

theorem asks_zero (h : ¬stream.Wants count) : stream.Asks count 0 := by
  refine ⟨nofun, h, ?_, ?_, fun hlive => ?_⟩
  · rw [await_of_not_wants h]
    rfl
  · rw [await_of_not_wants h]
    rfl
  · rw [await_of_not_wants h]
    show stream.verdict count = .ok () ↔ count ≤ stream.available
    by_cases havailable : count ≤ stream.available
    · exact iff_of_true (verdict_of_available hlive havailable) havailable
    · rw [verdict_of_short hlive (Nat.lt_of_not_le havailable)]
      exact iff_of_false nofun havailable

/-- Before the first fill the stream wants a chunk, and before the others if it does so after the
first. -/
theorem wanted_succ {times : Nat} (h : stream.Wants count)
    (hrest : ∀ earlier < times, (stream.fillOnce.stream.filled earlier).Wants count) :
    ∀ earlier < times + 1, (stream.filled earlier).Wants count := by
  intro earlier hearlier
  cases earlier with
  | zero => exact h
  | succ earlier => exact hrest earlier (Nat.lt_of_succ_lt_succ hearlier)

/-- **Waiting asks no more often than it must**, whatever the source does. -/
theorem await_asks (stream : ReadStream) (count : Nat) : ∃ times, stream.Asks count times := by
  induction stream using waiting count with
  | rest stream h => exact ⟨0, asks_zero h⟩
  | fill stream h ih =>
    cases hfill : stream.fillOnce.result with
    | error error =>
      -- the failed fill is the last: it ends the stream and brings nothing
      obtain ⟨-, hstate, hresident⟩ := fillOnce_failed hfill
      have hawait : stream.await count =
          ⟨.error error, stream.fillOnce.stream, stream.fillOnce.events⟩ := by
        rw [await_of_wants h, Outcome.bind, hfill]
      refine ⟨1, wanted_succ h nofun, fun hwants => ?_, ?_, ?_, fun _ => ?_⟩
      · have hlive : stream.fillOnce.stream.state.isOver = false := hwants.live
        rw [hstate] at hlive
        cases hlive
      · rw [hawait]
        rfl
      · rw [hawait]
        exact (List.append_nil _).symm
      · rw [hawait]
        refine iff_of_false nofun (Nat.not_le.mpr ?_)
        show stream.fillOnce.stream.resident.size < count
        rw [hresident]
        exact h.short
    | ok _ =>
      obtain ⟨times, hasks⟩ := ih hfill
      have hawait : stream.await count =
          { stream.fillOnce.stream.await count with
            events := stream.fillOnce.events ++ (stream.fillOnce.stream.await count).events } := by
        rw [await_of_wants h, Outcome.bind, hfill]
      refine ⟨times + 1, wanted_succ h hasks.wanted, hasks.enough, ?_, ?_, fun _ => ?_⟩
      · rw [hawait]
        exact hasks.later
      · rw [hawait, List.range_succ_eq_map, List.flatMap_cons, List.flatMap_map]
        exact congrArg (_ ++ ·) hasks.events
      · rw [hawait]
        exact hasks.result (fillOnce_live hfill)

theorem chunk_await (stream : ReadStream) (count : Nat) :
    (stream.await count).stream.chunk = stream.chunk := by
  obtain ⟨times, hasks⟩ := await_asks stream count
  rw [hasks.later, chunk_filled]

/-! ## Sealed streams -/

/-- Whether the source is asked no more: the stream is over, or the source has ended. -/
def Sealed (stream : ReadStream) : Prop := stream.state.isOver = true ∨ stream.complete = true

theorem Sealed.not_wants (h : stream.Sealed) (count : Nat) : ¬stream.Wants count := by
  intro hwants
  rcases h with hover | hcomplete
  · exact Bool.false_ne_true (hwants.live.symm.trans hover)
  · exact Bool.false_ne_true (hwants.unended.symm.trans hcomplete)

/-- The stream in front of another source. -/
def behind (stream : ReadStream) (source : Source) : ReadStream := { stream with source }

end ReadStream

/-- What an operation brings about, in front of another source. -/
def Outcome.behind {α : Type} (outcome : Outcome ReadStream α) (source : Source) :
    Outcome ReadStream α :=
  { outcome with stream := outcome.stream.behind source }

theorem Outcome.bind_behind {α β : Type} (outcome : Outcome ReadStream α) (source : Source)
    {f : ReadStream → α → Outcome ReadStream β}
    (hf : ∀ a, outcome.result = .ok a →
      f (outcome.stream.behind source) a = (f outcome.stream a).behind source) :
    (outcome.behind source).bind f = (outcome.bind f).behind source := by
  obtain ⟨result, stream, events⟩ := outcome
  cases result with
  | error error => rfl
  | ok a =>
    have hsame := hf a rfl
    unfold bind behind
    dsimp only at hsame ⊢
    rw [hsame]
    rfl

namespace ReadStream

variable {stream : ReadStream} {α : Type}

/-- What an operation of a sealed stream brings about: it stays sealed, and behind any other source
the same happens. -/
structure Unasking (operation : ReadStream → Outcome ReadStream α) (stream : ReadStream) :
    Prop where
  stays : (operation stream).stream.Sealed
  behind : ∀ source, operation (stream.behind source) = (operation stream).behind source

theorem await_unasking (h : stream.Sealed) (count : Nat) : Unasking (·.await count) stream where
  stays := by
    rw [await_of_not_wants (h.not_wants count)]
    exact h
  behind source := by
    have hbehind : (stream.behind source).Sealed := h
    rw [await_of_not_wants (h.not_wants count), await_of_not_wants (hbehind.not_wants count)]
    rfl

theorem take_unasking (h : stream.Sealed) (count : Nat) : Unasking (·.take count) stream where
  stays := by
    unfold take
    split <;> exact h
  behind source := by
    by_cases hshort : stream.available < count
    · have hshort' : (stream.behind source).available < count := hshort
      simp only [take, if_pos hshort, if_pos hshort']
      rfl
    · have hshort' : ¬(stream.behind source).available < count := hshort
      simp only [take, if_neg hshort, if_neg hshort']
      rfl

theorem Unasking.bind {β : Type} {operation : ReadStream → Outcome ReadStream α}
    {f : ReadStream → α → Outcome ReadStream β} (h : Unasking operation stream)
    (hf : ∀ a, Unasking (f · a) (operation stream).stream) :
    Unasking (fun stream => (operation stream).bind f) stream where
  stays := by
    have hstays := h.stays
    unfold Outcome.bind
    cases hresult : (operation stream).result with
    | error error => exact hstays
    | ok a => exact (hf a).stays
  behind source := by
    rw [h.behind source]
    exact Outcome.bind_behind _ source fun a _ => (hf a).behind source

theorem fetch_unasking (h : stream.Sealed) (count : Nat) : Unasking (·.fetch count) stream := by
  have hawait := await_unasking h count
  exact hawait.bind fun _ => take_unasking hawait.stays count

theorem collect_unasking {stream : ReadStream} (h : stream.Sealed) (count : Nat)
    (before : Array UInt8) (events : List Event) :
    Unasking (·.collect count before events) stream := by
  by_cases hzero : count = 0
  · refine ⟨?_, fun source => ?_⟩
    · rw [collect, if_pos hzero]
      exact h
    · rw [collect, collect, if_pos hzero, if_pos hzero]
      rfl
  have hportion : max 1 (min count stream.chunk) ≤ count := by omega
  have hpositive : 0 < max 1 (min count stream.chunk) := by omega
  have hfetch := fetch_unasking h (max 1 (min count stream.chunk))
  refine ⟨?_, fun source => ?_⟩
  · rw [collect, if_neg hzero]
    dsimp only
    split
    · exact hfetch.stays
    · exact (collect_unasking hfetch.stays _ _ _).stays
  · rw [collect, collect, if_neg hzero, if_neg hzero]
    dsimp only
    rw [show (stream.behind source).chunk = stream.chunk from rfl, hfetch.behind source]
    simp only [Outcome.behind]
    split
    · rfl
    · exact (collect_unasking hfetch.stays _ _ _).behind source
termination_by count
decreasing_by all_goals omega

theorem readBytes_unasking (h : stream.Sealed) (count : Nat) :
    Unasking (·.readBytes count) stream :=
  collect_unasking h count #[] []

theorem answer_unasking {β : Type} (answer : α → β) (h : stream.Sealed) (a : α) :
    Unasking (fun stream => ⟨.ok (answer a), stream, []⟩) stream :=
  ⟨h, fun _ => rfl⟩

end ReadStream

namespace ReadOperation

open ReadStream

variable {stream : ReadStream}

/-- **A sealed stream asks its source nothing**, whatever is done to it, and stays sealed. -/
theorem run_unasking (h : stream.Sealed) (operation : ReadOperation) :
    Unasking (run · operation) stream := by
  cases operation with
  | await count =>
    have hawait := await_unasking h count
    exact hawait.bind (answer_unasking (fun _ => ReadAnswer.nothing) hawait.stays)
  | take count =>
    have htake := take_unasking h count
    exact htake.bind (answer_unasking ReadAnswer.bytes htake.stays)
  | read count =>
    have hread := readBytes_unasking h count
    exact hread.bind (answer_unasking ReadAnswer.bytes hread.stays)
  | close =>
    refine ⟨?_, fun _ => rfl⟩
    left
    show (if stream.state = .errored then StreamState.errored else .closed).isOver = true
    split <;> rfl
  | abort => exact ⟨.inl rfl, fun _ => rfl⟩

/-- **Behind any other source the same happens** to a sealed stream, however long. -/
theorem runAll_behind (h : stream.Sealed) (source : Source) (operations : List ReadOperation) :
    runAll (stream.behind source) operations =
      (runAll stream operations).map (·.behind source) := by
  induction operations generalizing stream with
  | nil => rfl
  | cons operation rest ih =>
    have hrun := run_unasking h operation
    simp only [runAll, hrun.behind source, List.map_cons]
    exact congrArg _ (ih hrun.stays)

end ReadOperation

end ByteLayout
