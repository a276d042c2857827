import ByteLayout.Proofs.Filling
import ByteLayout.Proofs.Poisoning
import ByteLayout.Proofs.ReadHistory

/-!
# Read streams that failed

A stream whose source fails is errored for good, and so is one that was aborted. From then on waits
and reads are refused, and its source is left alone. But whether bytes can be taken depends on
nothing except that they are there: what had come in before the failure can still be taken, until
the stream is closed.

**Step** (`ReadOperation.run_residue`). An operation makes an errored stream take some of the bytes
that are there, or drop them all, and does nothing else to it.

**Theorem (`ReadStream.failed_after`).** After a failure of the source, and after an abort, this is
all that a stream does, whatever is done to it.
-/

namespace ByteLayout

namespace ReadOperation

open ReadStream

variable {stream : ReadStream}

/-! ## The failure -/

/-- What an operation tells of the stream is told of its answer too. -/
theorem endures_answer {α β : Type} {outcome : Outcome ReadStream α} (h : stream.Endures outcome)
    (answer : α → β) :
    stream.Endures (outcome.bind fun stream a => ⟨.ok (answer a), stream, []⟩) :=
  h.bind fun _ _ => endures_ok rfl rfl

/-- **A failure of the source and an abort make a stream errored.** -/
theorem errored_of_failed (operation : ReadOperation) (h : operation = .abort ∨
    ∃ path cause, (run stream operation).result = .error (.io path cause)) :
    (run stream operation).stream.state = .errored := by
  rcases h with rfl | ⟨path, cause, hfailed⟩
  · rfl
  cases operation with
  | await count => exact (endures_answer (stream.await_endures count) _).failed path cause hfailed
  | take count => exact (endures_answer (stream.take_endures count) _).failed path cause hfailed
  | read count =>
    exact (endures_answer (stream.readBytes_endures count) _).failed path cause hfailed
  | close => cases hfailed
  | abort => rfl

/-! ## After the failure -/

theorem run_await_errored (h : stream.state = .errored) (count : Nat) :
    run stream (.await count) = ⟨.error (.poisoned stream.path), stream, []⟩ := by
  unfold run
  dsimp only
  rw [await_of_over (by rw [h]; rfl)]
  rfl

/-- A read of no byte is not refused. -/
theorem run_read_errored (h : stream.state = .errored) (count : Nat) :
    run stream (.read count) =
      ⟨if count = 0 then .ok (.bytes []) else .error (.poisoned stream.path), stream, []⟩ := by
  unfold run
  dsimp only
  rw [readBytes_of_over (by rw [h]; rfl), nothingOf]
  by_cases hzero : count = 0
  · rw [if_pos hzero, if_pos hzero]
    rfl
  · rw [if_neg hzero, if_neg hzero]
    rfl

/-- Taking asks whether the bytes are there, and nothing else. -/
theorem run_take (stream : ReadStream) (count : Nat) :
    run stream (.take count) =
      if count ≤ stream.available then
        ⟨.ok (.bytes (stream.resident.toList.take count)),
          { stream with
            resident := (stream.resident.pop count).2
            consumed := stream.consumed + count }, []⟩
      else ⟨.error (.unexpectedEnd stream.path (count - stream.available)), stream, []⟩ := by
  unfold run ReadStream.take
  dsimp only
  by_cases hcount : count ≤ stream.available
  · rw [if_neg (Nat.not_lt.mpr hcount), if_pos hcount, ← ByteQueue.pop_fst]
    rfl
  · rw [if_pos (Nat.lt_of_not_le hcount), if_neg hcount]
    rfl

/-- Bytes can be taken if and only if they are there. -/
theorem run_take_ok (stream : ReadStream) (count : Nat) : count ≤ stream.available ↔
    ∃ bytes, (run stream (.take count)).result = .ok (.bytes bytes) := by
  rw [run_take]
  by_cases hcount : count ≤ stream.available
  · rw [if_pos hcount]
    exact iff_of_true hcount ⟨_, rfl⟩
  · rw [if_neg hcount]
    exact iff_of_false hcount nofun

end ReadOperation

namespace ReadStream

open ReadOperation

variable {stream last : ReadStream} {used : List UInt8}

/-- What is left of an errored stream: the bytes `used` were taken, and the others are there, or
were dropped. -/
structure Residue (stream last : ReadStream) (used : List UInt8) : Prop where
  errored : last.state = .errored
  path : last.path = stream.path
  position : last.position = stream.position + used.length
  resident : stream.resident.toList = used ++ last.resident.toList ∨
    used <+: stream.resident.toList ∧ last.resident.toList = []

theorem Residue.refl (h : stream.state = .errored) : stream.Residue stream [] :=
  ⟨h, rfl, rfl, .inl rfl⟩

theorem Residue.isPrefix (h : stream.Residue last used) : used <+: stream.resident.toList := by
  rcases h.resident with hthere | ⟨htaken, -⟩
  · exact ⟨_, hthere.symm⟩
  · exact htaken

/-- What is consumed and what is left is at most what was there. -/
theorem Residue.bounded (h : stream.Residue last used) :
    stream.position ≤ last.position ∧
      last.position + last.available ≤ stream.position + stream.available := by
  have hposition := h.position
  have hall : stream.available = stream.resident.toList.length :=
    (ByteQueue.length_toList _).symm
  have hleft : last.available = last.resident.toList.length := (ByteQueue.length_toList _).symm
  rcases h.resident with hthere | ⟨htaken, hnone⟩
  · rw [hthere, List.length_append] at hall
    omega
  · rw [hnone, List.length_nil] at hleft
    have hless := htaken.length_le
    omega

/-- The bytes that are left are those behind the ones that were taken. -/
theorem Residue.rest (h : stream.Residue last used) {count : Nat}
    (hcount : count ≤ last.available) :
    last.resident.toList.take count =
      (stream.resident.toList.drop (last.position - stream.position)).take count := by
  rw [h.position, Nat.add_sub_cancel_left]
  rcases h.resident with hthere | ⟨-, hnone⟩
  · rw [hthere, List.drop_left]
  · have hleft : count ≤ last.resident.size := hcount
    rw [← ByteQueue.length_toList, hnone] at hleft
    obtain rfl : count = 0 := Nat.le_zero.mp hleft
    rw [List.take_zero, List.take_zero]

/-- Bytes that are left are taken in order. -/
theorem Residue.take (h : stream.Residue last used) {count : Nat}
    (hcount : count ≤ last.available) :
    stream.Residue
      { last with resident := (last.resident.pop count).2, consumed := last.consumed + count }
      (used ++ last.resident.toList.take count) := by
  have hlength : (last.resident.toList.take count).length = count :=
    List.length_take_of_le (by rw [ByteQueue.length_toList]; exact hcount)
  refine ⟨h.errored, h.path, ?_, ?_⟩
  · have hposition : last.consumed = stream.position + used.length := h.position
    show last.consumed + count = _
    rw [List.length_append, hlength, hposition, Nat.add_assoc]
  · rw [ByteQueue.toList_pop_snd]
    rcases h.resident with hthere | ⟨htaken, hnone⟩
    · left
      rw [List.append_assoc, List.take_append_drop]
      exact hthere
    · right
      rw [hnone, List.take_nil, List.append_nil, List.drop_nil]
      exact ⟨htaken, rfl⟩

/-- Bytes that are left are dropped by a close, which does not mend the stream. -/
theorem Residue.close (h : stream.Residue last used) : stream.Residue last.close.stream used where
  errored := by
    show (if last.state = .errored then StreamState.errored else .closed) = .errored
    rw [if_pos h.errored]
  path := h.path
  position := h.position
  resident := .inr ⟨h.isPrefix, rfl⟩

end ReadStream

namespace ReadOperation

open ReadStream

variable {stream last : ReadStream} {used : List UInt8}

/-- The bytes that an operation of an errored stream takes. -/
def taking (stream : ReadStream) : ReadOperation → List UInt8
  | take count => if count ≤ stream.available then stream.resident.toList.take count else []
  | await _ | read _ | close | abort => []

/-- **All that is done to an errored stream** is to take bytes that are there, or to drop them. -/
theorem run_residue (h : stream.Residue last used) (operation : ReadOperation) :
    stream.Residue (run last operation).stream (used ++ operation.taking last) := by
  cases operation with
  | await count =>
    rw [run_await_errored h.errored, taking, List.append_nil]
    exact h
  | read count =>
    rw [run_read_errored h.errored, taking, List.append_nil]
    exact h
  | take count =>
    rw [run_take, taking]
    by_cases hcount : count ≤ last.available
    · rw [if_pos hcount, if_pos hcount]
      exact h.take hcount
    · rw [if_neg hcount, if_neg hcount, List.append_nil]
      exact h
  | close =>
    rw [taking, List.append_nil]
    exact h.close
  | abort =>
    rw [taking, List.append_nil]
    exact ⟨rfl, h.path, h.position, h.resident⟩

/-- The bytes that operations of an errored stream take, one after the other. -/
def takingAll (stream : ReadStream) : List ReadOperation → List UInt8
  | [] => []
  | operation :: rest => operation.taking stream ++ takingAll (run stream operation).stream rest

theorem after_residue (h : stream.Residue last used) (operations : List ReadOperation) :
    stream.Residue (after last operations) (used ++ takingAll last operations) := by
  induction operations generalizing last used with
  | nil =>
    rw [takingAll, List.append_nil]
    exact h
  | cons operation rest ih =>
    rw [takingAll, ← List.append_assoc]
    exact ih (run_residue h operation)

theorem takingAll_eq_nil {operations : List ReadOperation}
    (h : ∀ count, .take count ∉ operations) (stream : ReadStream) :
    takingAll stream operations = [] := by
  induction operations generalizing stream with
  | nil => rfl
  | cons operation rest ih =>
    have hnone : operation.taking stream = [] := by
      cases operation with
      | take count => exact absurd List.mem_cons_self (h count)
      | _ => rfl
    rw [takingAll, hnone, List.nil_append]
    exact ih (fun count hmem => h count (List.mem_cons_of_mem _ hmem)) _

/-- After a close no byte is there, whatever else is done to an errored stream. -/
theorem available_after_close (h : stream.state = .errored) {operations : List ReadOperation}
    (hclose : .close ∈ operations) : (after stream operations).available = 0 := by
  obtain ⟨first, later, rfl⟩ := List.append_of_mem hclose
  have hclosed := (after_residue (.refl h) first).close
  set closed := (after stream first).close.stream with hdef
  have hempty : closed.resident.toList = [] := rfl
  have hlast := after_residue (.refl hclosed.errored) later
  have hafter : after stream (first ++ .close :: later) = after closed later := by
    unfold after
    rw [List.foldl_append, List.foldl_cons]
    rfl
  rw [hafter]
  show (after closed later).resident.size = 0
  rw [← ByteQueue.length_toList, List.length_eq_zero_iff]
  rcases hlast.resident with hthere | ⟨-, hnone⟩
  · rw [hempty] at hthere
    exact (List.append_eq_nil_iff.mp hthere.symm).2
  · exact hnone

end ReadOperation

namespace ReadStream

open ReadOperation

variable {stream : ReadStream}

/-- What a stream does that has failed. -/
structure Failed (stream : ReadStream) : Prop where
  /-- It stays errored, whatever is done to it, -/
  errored : ∀ later, (after stream later).state = .errored
  /-- and its source is left alone: behind any other the same would happen. -/
  source : ∀ later source,
    runAll (stream.behind source) later = (runAll stream later).map (·.behind source)
  /-- Every wait is refused, -/
  await : ∀ later count, run (after stream later) (.await count) =
    ⟨.error (.poisoned stream.path), after stream later, []⟩
  /-- and so is every read, except for one of no byte. -/
  read : ∀ later count, run (after stream later) (.read count) =
    ⟨if count = 0 then .ok (.bytes []) else .error (.poisoned stream.path),
      after stream later, []⟩
  /-- The bytes that were there can be taken, in order and each of them once, -/
  take : ∀ later count bytes, (run (after stream later) (.take count)).result = .ok (.bytes bytes) →
    bytes.length = count ∧
      bytes = (stream.resident.toList.drop
        ((after stream later).position - stream.position)).take count
  /-- as many of them as are left; -/
  left : ∀ later count, count ≤ (after stream later).available ↔
    ∃ bytes, (run (after stream later) (.take count)).result = .ok (.bytes bytes)
  /-- for more, taking fails as at the end of a source. -/
  short : ∀ later count, (after stream later).available < count →
    run (after stream later) (.take count) =
      ⟨.error (.unexpectedEnd stream.path (count - (after stream later).available)),
        after stream later, []⟩
  /-- Nothing but taking moves the position, -/
  position : ∀ later, (∀ count, .take count ∉ later) →
    (after stream later).position = stream.position
  /-- and never by more than was there. -/
  bounded : ∀ later, stream.position ≤ (after stream later).position ∧
    (after stream later).position + (after stream later).available ≤
      stream.position + stream.available
  /-- After a close nothing is left. -/
  dropped : ∀ later, .close ∈ later → (after stream later).available = 0

theorem failed_of_errored (h : stream.state = .errored) : stream.Failed := by
  have hresidue : ∀ later, stream.Residue (after stream later) (takingAll stream later) :=
    after_residue (.refl h)
  refine ⟨fun later => (hresidue later).errored, fun later source => ?_, fun later count => ?_,
    fun later count => ?_, fun later count bytes hok => ?_, fun later count => run_take_ok _ count,
    fun later count hshort => ?_, fun later hnone => ?_, fun later => (hresidue later).bounded,
    fun later hclose => available_after_close h hclose⟩
  · exact runAll_behind (.inl (by rw [h]; rfl)) source later
  · rw [run_await_errored (hresidue later).errored, (hresidue later).path]
  · rw [run_read_errored (hresidue later).errored, (hresidue later).path]
  · have hcount := (run_take_ok _ count).mpr ⟨bytes, hok⟩
    rw [run_take, if_pos hcount] at hok
    obtain rfl := ReadAnswer.bytes.inj (Except.ok.inj hok)
    exact ⟨List.length_take_of_le (by rw [ByteQueue.length_toList]; exact hcount),
      (hresidue later).rest hcount⟩
  · rw [run_take, if_neg (Nat.not_le.mpr hshort), (hresidue later).path]
  · rw [(hresidue later).position, takingAll_eq_nil hnone]
    rfl

/-- **After a failure of the source, and after an abort**, waits are refused, reads of some bytes
too, and the source is left alone; what can still be had are the bytes that were there. -/
theorem failed_after (stream : ReadStream) (operation : ReadOperation)
    (h : operation = .abort ∨
      ∃ path cause, (run stream operation).result = .error (.io path cause)) :
    (run stream operation).stream.Failed :=
  failed_of_errored (errored_of_failed operation h)

/-- Two bytes, and then a failure. -/
def broken : SourceBehaviour := { data := [0, 1], failure := some ⟨"Other", "disk gone"⟩ }

/-- The source fails while four bytes are waited for. -/
theorem failed_after_broken :
    (∃ path cause,
      (run (create broken 2 "x") (.await 4)).result = .error (.io path cause)) ∧
      (run (create broken 2 "x") (.await 4)).stream.Failed := by
  have hflows : broken.Flows := fun _ _ hasked => hasked
  have hawait := await_result (steady_create hflows 2 "x") 4
  rw [if_neg (by decide)] at hawait
  have hfailed : (run (create broken 2 "x") (.await 4)).result =
      .error (.io "x" ⟨"Other", "disk gone"⟩) := by
    unfold run Outcome.bind
    dsimp only
    rw [hawait]
    rfl
  exact ⟨⟨_, _, hfailed⟩, failed_after _ _ (.inr ⟨_, _, hfailed⟩)⟩

end ReadStream

end ByteLayout
