import ByteLayout.Proofs.Handing

/-!
# Histories of read streams

A read stream is created and then asked for bytes, by requests that wait, take or read. As long as
its source does not fail, it is in order (`InOrder`): the bytes that are there are those of the
source from the position on, and a request gives the next ones or says how many are missing.

**Step** (`ReadOperation.run_hands`). A request consumes some of the unread bytes, loses none, and
keeps the stream in use unless the source fails.

**Theorem (`ReadStream.in_order_after`).** After any requests, however the source splits its bytes
and whatever the size of a chunk, the stream is in order.
-/

namespace ByteLayout

/-- How a source leaves a request behind that lacks `needed` bytes: it fails, or it ends. -/
def SourceBehaviour.lack (behaviour : SourceBehaviour) (path : String) (needed : Nat) : Error :=
  match behaviour.failure with
  | some cause => .io path cause
  | none => .unexpectedEnd path needed

namespace ReadStream

variable {stream : ReadStream}

/-! ## Too few bytes -/

/-- Waiting for more bytes than are left says how many are missing, and at the end of the source all
that are left are there. -/
theorem fillUntil_short {stream : ReadStream} (h : stream.Steady) {count : Nat}
    (hshort : stream.unread.length < count) (events : List Event) :
    (stream.fillUntil count events).result =
        .error (stream.source.behaviour.lack stream.path (count - stream.unread.length)) ∧
      (stream.source.behaviour.failure = none →
        (stream.fillUntil count events).stream.available = stream.unread.length) := by
  have havailable : ¬count ≤ stream.available := by
    rw [length_unread] at hshort
    omega
  rw [fillUntil, if_neg (by rw [h.live]; exact Bool.false_ne_true), dif_neg havailable]
  by_cases hcomplete : stream.complete = true
  · obtain ⟨hrest, hfailure⟩ := h.complete hcomplete
    have hall : stream.unread.length = stream.available := by
      rw [length_unread, hrest]
      rfl
    rw [dif_pos hcomplete, SourceBehaviour.lack, hfailure, hall]
    exact ⟨rfl, fun _ => rfl⟩
  rw [dif_neg hcomplete]
  have hfill := (fillOnce_steady h (eq_false_of_ne_true hcomplete)).1
  split
  · next error filled more heq =>
    rw [heq] at hfill
    rcases hfill with ⟨hok, -⟩ | ⟨cause, hfailure, -, herror⟩
    · cases hok
    cases herror
    rw [SourceBehaviour.lack, hfailure]
    exact ⟨rfl, nofun⟩
  · next filled more heq =>
    have hless := outstanding_lt_of_fillOnce_eq havailable hcomplete heq
    rw [heq] at hfill
    rcases hfill with ⟨-, hmoves⟩ | ⟨_, _, _, herror⟩
    · have hunread : stream.unread = filled.unread := hmoves.unread
      have hrest := fillUntil_short hmoves.steady (hunread ▸ hshort) (more.reverse ++ events)
      rwa [hmoves.behaviour, hmoves.path, ← hunread] at hrest
    · cases herror
termination_by stream.outstanding count
decreasing_by assumption

theorem await_short (h : stream.Steady) {count : Nat} (hshort : stream.unread.length < count) :
    (stream.await count).result =
      .error (stream.source.behaviour.lack stream.path (count - stream.unread.length)) :=
  (fillUntil_short h hshort []).1

/-- Waiting succeeds if there are enough bytes, and otherwise says how many are missing. -/
theorem await_result (h : stream.Steady) (count : Nat) :
    (stream.await count).result =
      if count ≤ stream.unread.length then .ok ()
      else .error (stream.source.behaviour.lack stream.path (count - stream.unread.length)) := by
  by_cases hcount : count ≤ stream.unread.length
  · rw [if_pos hcount]
    exact ((await_draws h count).enough hcount).1
  · rw [if_neg hcount]
    exact await_short h (Nat.lt_of_not_le hcount)

/-- Waiting ends with the source only if too few bytes are left, and then all of them are there. -/
theorem available_of_await_end (h : stream.Steady) {count needed : Nat} {path : String}
    (hend : (stream.await count).result = .error (.unexpectedEnd path needed)) :
    (stream.await count).stream.available = stream.unread.length := by
  have hresult := await_result h count
  rw [hend] at hresult
  by_cases hcount : count ≤ stream.unread.length
  · rw [if_pos hcount] at hresult
    cases hresult
  rw [if_neg hcount] at hresult
  refine (fillUntil_short h (Nat.lt_of_not_le hcount) []).2 ?_
  cases hfailure : stream.source.behaviour.failure with
  | none => rfl
  | some cause =>
    rw [SourceBehaviour.lack, hfailure] at hresult
    cases hresult

/-- Too few bytes to take leave the stream as it is. -/
theorem take_failed {count : Nat} {error : Error} (h : (stream.take count).result = .error error) :
    (stream.take count).stream = stream := by
  unfold take at h ⊢
  by_cases hshort : stream.available < count
  · rw [if_pos hshort]
  · rw [if_neg hshort] at h
    cases h

/-! ## Order -/

/-- What is left to `later`, a stream that could not serve a request: the position is as before, and
the bytes that are left can still be had. -/
structure Serves (stream later : ReadStream) (rest : List UInt8) : Prop where
  position : later.position = stream.position
  unread : later.unread = rest
  await : ∀ count, count ≤ rest.length → (later.await count).result = .ok ()
  read : ∀ count, count ≤ rest.length → (later.readBytes count).result = .ok (rest.take count)
  take : ∀ count, count ≤ later.available → (later.take count).result = .ok (rest.take count)

/-- A stream hands out the bytes of its source in order. -/
structure InOrder (behaviour : SourceBehaviour) (path : String) (stream : ReadStream) : Prop where
  /-- The bytes that are there are those from the position on. -/
  resident : stream.resident.toList =
    (behaviour.data.drop stream.position).take stream.available
  /-- The source has delivered what was consumed and what is there. -/
  delivered : stream.position + stream.available = stream.source.given
  take : ∀ count bytes, (stream.take count).result = .ok bytes →
    bytes = (behaviour.data.drop stream.position).take count ∧ bytes.length = count ∧
      (stream.take count).stream.position = stream.position + count
  read : ∀ count bytes, (stream.readBytes count).result = .ok bytes →
    bytes = (behaviour.data.drop stream.position).take count ∧ bytes.length = count ∧
      (stream.readBytes count).stream.position = stream.position + count
  /-- Waiting succeeds just if enough bytes are left, and otherwise says what is missing. -/
  await : ∀ count, (stream.await count).result =
    if count ≤ (behaviour.data.drop stream.position).length then .ok ()
    else .error
      (behaviour.lack path (count - (behaviour.data.drop stream.position).length))
  /-- Whatever is left when waiting meets the end of the source is there and can be had. -/
  awaitEnd : ∀ count other needed,
    (stream.await count).result = .error (.unexpectedEnd other needed) →
      stream.Serves (stream.await count).stream (behaviour.data.drop stream.position) ∧
        (stream.await count).stream.available = (behaviour.data.drop stream.position).length
  takeEnd : ∀ count other needed,
    (stream.take count).result = .error (.unexpectedEnd other needed) →
      stream.Serves (stream.take count).stream (behaviour.data.drop stream.position)

/-- A stream in use serves what is left. -/
theorem serves_of_consumes {later : ReadStream} (h : later.Steady)
    (hconsumes : stream.Consumes later []) : stream.Serves later stream.unread := by
  have hunread : later.unread = stream.unread := hconsumes.unread.symm
  refine ⟨hconsumes.consumed, hunread, fun count hcount => ?_, fun count hcount => ?_,
    fun count hcount => ?_⟩
  · exact ((await_draws h count).enough (hunread ▸ hcount)).1
  · rw [← hunread] at hcount ⊢
    exact ((readBytes_draws h count).enough hcount).1
  · rw [← hunread]
    exact (take_moves h hcount).1

/-- Waiting consumes nothing. -/
theorem await_consumes (stream : ReadStream) (count : Nat) :
    stream.Consumes (stream.await count).stream [] := by
  obtain ⟨used, hconsumes, hnone⟩ := (await_hands stream count).consumes
  obtain rfl : used = [] := hnone
  exact hconsumes

/-- What an operation gives that hands out a run. -/
theorem Hands.run_ok {count : Nat} {outcome : Outcome ReadStream (List UInt8)}
    (h : Hands stream (Run [] count) outcome) {bytes : List UInt8}
    (hok : outcome.result = .ok bytes) :
    bytes = stream.unread.take count ∧ bytes.length = count ∧
      outcome.stream.position = stream.position + count := by
  obtain ⟨used, hconsumes, hgives⟩ := h.consumes
  rw [hok] at hgives
  obtain ⟨rfl, hlength⟩ := hgives
  refine ⟨?_, hlength, ?_⟩
  · rw [hconsumes.unread, ← hlength]
    exact List.take_left.symm
  · rw [← hlength]
    exact hconsumes.consumed

/-- A fresh stream that has consumed some bytes is in order, as long as it is in use. -/
theorem in_order_of_consumes {behaviour : SourceBehaviour} {chunk : Nat} {path : String}
    {used : List UInt8} (h : stream.Steady)
    (hconsumes : (create behaviour chunk path).Consumes stream used) :
    stream.InOrder behaviour path := by
  have hdata : behaviour.data = used ++ stream.unread := hconsumes.unread
  have hposition : stream.position = used.length := by
    rw [position, hconsumes.consumed]
    exact Nat.zero_add _
  have hrest : behaviour.data.drop stream.position = stream.unread := by
    rw [hdata, hposition, List.drop_left]
  have hbehaviour : stream.source.behaviour = behaviour := hconsumes.behaviour
  have hpath : stream.path = path := hconsumes.path
  refine ⟨?_, ?_, ?_, ?_, ?_, ?_, ?_⟩
  · rw [hrest]
    exact (List.take_left' (ByteQueue.length_toList _)).symm
  · have hgiven : stream.source.given + stream.source.rest.length = 0 + behaviour.data.length :=
      hconsumes.given
    rw [hdata, List.length_append, length_unread] at hgiven
    omega
  · intro count bytes hok
    rw [hrest]
    exact (take_hands stream count).run_ok hok
  · intro count bytes hok
    rw [hrest]
    exact (readBytes_hands stream count).run_ok hok
  · intro count
    rw [hrest, ← hbehaviour, ← hpath]
    exact await_result h count
  · intro count other needed hend
    have hsteady : (stream.await count).stream.Steady :=
      (await_hands stream count).steady h fun path cause hfailed => nomatch hend.symm.trans hfailed
    rw [hrest]
    exact ⟨serves_of_consumes hsteady (await_consumes stream count), available_of_await_end h hend⟩
  · intro count other needed hend
    rw [hrest, take_failed hend]
    exact serves_of_consumes h (.refl stream)

end ReadStream

/-! ## Runs -/

namespace ReadOperation

/-- Whether an operation asks for bytes; the others end the stream. -/
def IsRequest : ReadOperation → Prop
  | await _ | take _ | read _ => True
  | close | abort => False

/-- The stream after some operations, whether they succeed or not. -/
def after (stream : ReadStream) (operations : List ReadOperation) : ReadStream :=
  operations.foldl (fun stream operation => (run stream operation).stream) stream

theorem hands_answer {α : Type} {stream : ReadStream} {gives : List UInt8 → Except Error α → Prop}
    {outcome : Outcome ReadStream α} (h : stream.Hands gives outcome) (answer : α → ReadAnswer) :
    stream.Hands (fun _ _ => True)
      (outcome.bind fun stream a => ⟨.ok (answer a), stream, []⟩) :=
  h.bind (fun _ _ _ => trivial) fun _ _ _ =>
    ReadStream.hands_nothing trivial (List.forall_mem_nil _)

/-- **A request hands out unread bytes in order.** -/
theorem run_hands (stream : ReadStream) {operation : ReadOperation} (h : operation.IsRequest) :
    stream.Hands (fun _ _ => True) (run stream operation) := by
  cases operation with
  | await count => exact hands_answer (stream.await_hands count) fun _ => .nothing
  | take count => exact hands_answer (stream.take_hands count) .bytes
  | read count => exact hands_answer (stream.readBytes_hands count) .bytes
  | close => exact absurd h id
  | abort => exact absurd h id

/-- Requests one after the other consume the unread bytes in order. -/
theorem after_consumes (stream : ReadStream) {operations : List ReadOperation}
    (h : ∀ operation ∈ operations, operation.IsRequest) :
    ∃ used, stream.Consumes (after stream operations) used := by
  induction operations generalizing stream with
  | nil => exact ⟨[], .refl stream⟩
  | cons operation rest ih =>
    obtain ⟨hfirst, hrest⟩ := List.forall_mem_cons.mp h
    obtain ⟨used, hused, -⟩ := (run_hands stream hfirst).consumes
    obtain ⟨more, hmore⟩ := ih (run stream operation).stream hrest
    exact ⟨used ++ more, hused.trans hmore⟩

/-- Requests one after the other keep a stream in use, as long as the source does not fail. -/
theorem after_steady {stream : ReadStream} (hsteady : stream.Steady)
    {operations : List ReadOperation} (h : ∀ operation ∈ operations, operation.IsRequest)
    (hunbroken : ∀ outcome ∈ runAll stream operations, outcome.Unbroken) :
    (after stream operations).Steady := by
  induction operations generalizing stream with
  | nil => exact hsteady
  | cons operation rest ih =>
    obtain ⟨hfirst, hrest⟩ := List.forall_mem_cons.mp h
    obtain ⟨hsound, hlater⟩ := List.forall_mem_cons.mp hunbroken
    exact ih ((run_hands stream hfirst).steady hsteady hsound) hrest hlater

/-! ### Sources that do not fail -/

theorem answer_unbroken {α : Type} {outcome : Outcome ReadStream α} (h : outcome.Unbroken)
    (answer : α → ReadAnswer) :
    (outcome.bind fun stream a => ⟨.ok (answer a), stream, []⟩).Unbroken := by
  intro path cause
  unfold Outcome.bind
  cases hresult : outcome.result with
  | error error =>
    intro hfailed
    exact h path cause (hresult.trans (congrArg _ (Except.error.inj hfailed)))
  | ok a => exact nofun

theorem unbroken_of_draws {α : Type} {stream : ReadStream} {count : Nat} {bytes : List UInt8}
    {a : α} {outcome : Outcome ReadStream α} (h : ReadStream.Draws stream count bytes a outcome)
    (hfailure : stream.source.behaviour.failure = none) : outcome.Unbroken := by
  by_cases hcount : count ≤ stream.unread.length
  · exact Outcome.unbroken_of_ok (h.enough hcount).1
  · obtain ⟨error, herror, hlacks⟩ := h.short (Nat.lt_of_not_le hcount)
    unfold ReadStream.Lacks at hlacks
    rw [hfailure] at hlacks
    obtain ⟨needed, rfl⟩ := hlacks
    intro path cause hfailed
    cases herror.symm.trans hfailed

/-- A request to a source that never fails does not break. -/
theorem run_unbroken {stream : ReadStream} (h : stream.Steady)
    (hfailure : stream.source.behaviour.failure = none) {operation : ReadOperation}
    (hrequest : operation.IsRequest) : (run stream operation).Unbroken := by
  cases operation with
  | await count => exact answer_unbroken (unbroken_of_draws (stream.await_draws h count) hfailure) _
  | take count =>
    refine answer_unbroken (fun path cause => ?_) _
    unfold ReadStream.take
    split <;> exact nofun
  | read count =>
    exact answer_unbroken (unbroken_of_draws (stream.readBytes_draws h count) hfailure) _
  | close => exact absurd hrequest id
  | abort => exact absurd hrequest id

theorem runAll_unbroken {stream : ReadStream} (h : stream.Steady)
    (hfailure : stream.source.behaviour.failure = none) {operations : List ReadOperation}
    (hrequests : ∀ operation ∈ operations, operation.IsRequest) :
    ∀ outcome ∈ runAll stream operations, outcome.Unbroken := by
  induction operations generalizing stream with
  | nil => exact List.forall_mem_nil _
  | cons operation rest ih =>
    obtain ⟨hfirst, hrest⟩ := List.forall_mem_cons.mp hrequests
    have hunbroken := run_unbroken h hfailure hfirst
    have hhands := run_hands stream hfirst
    obtain ⟨used, hconsumes, -⟩ := hhands.consumes
    refine List.forall_mem_cons.mpr ⟨hunbroken, ih (hhands.steady h hunbroken) ?_ hrest⟩
    rw [hconsumes.behaviour]
    exact hfailure

end ReadOperation

namespace ReadStream

/-- **A read stream hands out its source in order**, after any requests in which the source did not
fail, whatever the size of a chunk and however the source splits its bytes. -/
theorem in_order_after {behaviour : SourceBehaviour} (hflows : behaviour.Flows) (chunk : Nat)
    (path : String) {operations : List ReadOperation}
    (hrequests : ∀ operation ∈ operations, operation.IsRequest)
    (hunbroken : ∀ outcome ∈ ReadOperation.runAll (create behaviour chunk path) operations,
      outcome.Unbroken) :
    (ReadOperation.after (create behaviour chunk path) operations).InOrder behaviour path := by
  obtain ⟨used, hconsumes⟩ := ReadOperation.after_consumes (create behaviour chunk path) hrequests
  exact in_order_of_consumes
    (ReadOperation.after_steady (steady_create hflows chunk path) hrequests hunbroken) hconsumes

/-- Three bytes that come one at a time. -/
def drip : SourceBehaviour := { data := [1, 2, 3], portion := fun _ _ => 1 }

/-- One byte is taken, and five are asked for in vain. -/
def drippedRequests : List ReadOperation := [.await 2, .take 1, .await 5]

theorem in_order_after_drip :
    drip.Flows ∧ (∀ operation ∈ drippedRequests, operation.IsRequest) ∧
      (ReadOperation.after (create drip 4 "x") drippedRequests).InOrder drip "x" := by
  have hflows : drip.Flows := fun _ _ _ => Nat.one_pos
  have hrequests : ∀ operation ∈ drippedRequests, operation.IsRequest := by
    simp [drippedRequests, ReadOperation.IsRequest]
  exact ⟨hflows, hrequests, in_order_after hflows 4 "x" hrequests
    (ReadOperation.runAll_unbroken (steady_create hflows 4 "x") rfl hrequests)⟩

end ReadStream

end ByteLayout
