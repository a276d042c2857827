import ByteLayout.Proofs.Journal
import ByteLayout.Stream.Read
import Mathlib.Tactic.Set

/-!
# Read streams and their unread bytes

A source **flows** if it gives at least one byte of whatever is asked for as long as there is one;
behind its last byte it ends or fails. In front of such a source a read stream is known by its
**unread** bytes, those that are there followed by those that are still to come in: how the source
splits them and how many are asked for at once makes no difference.

`Draws stream count bytes a outcome` says what becomes of an operation that needs `count` unread
bytes: if there are so many, it succeeds with the result `a` and consumes `bytes`, and otherwise it
fails in the way in which the source stops. **Theorem** (`await_draws`, `fetch_draws`,
`readBytes_draws`): so do all operations of a stream, for runs of any length.

A source that flows and does not fail is **generous**, and `Gives stream bytes a outcome` says that
an operation succeeded in front of such a source (`fetch_gives`, `readBytes_gives`).
-/

namespace ByteLayout

/-- Whether a source gives some byte of whatever is asked for, as long as there is one. -/
def SourceBehaviour.Flows (behaviour : SourceBehaviour) : Prop :=
  ∀ given asked, 0 < asked → 0 < behaviour.portion given asked

/-- Whether a source does not fail, and gives some byte of whatever is asked for. -/
structure SourceBehaviour.Generous (behaviour : SourceBehaviour) : Prop where
  failure : behaviour.failure = none
  portion : ∀ given asked, 0 < asked → 0 < behaviour.portion given asked

theorem SourceBehaviour.generous_ofBytes (data : List UInt8) : (ofBytes data).Generous :=
  ⟨rfl, fun _ _ h => h⟩

/-- A read from a source that flows gives a run of its bytes; only behind the last one it fails or
gives none. -/
theorem Source.read_flows {source : Source} (h : source.behaviour.Flows) {asked : Nat}
    (hasked : 0 < asked) :
    (∃ cause, source.behaviour.failure = some cause ∧ source.rest = [] ∧
      source.read asked = (source, .error cause)) ∨
    ∃ portion later, source.read asked = (later, .ok portion) ∧
      later.behaviour = source.behaviour ∧ source.rest = portion ++ later.rest ∧
      (portion = [] → later.rest = [] ∧ source.behaviour.failure = none) := by
  obtain ⟨behaviour, rest, given, reads⟩ := source
  cases rest with
  | nil =>
    cases hfailure : behaviour.failure with
    | some cause =>
      refine .inl ⟨cause, rfl, rfl, ?_⟩
      unfold Source.read
      simp only [hfailure, List.isEmpty_nil]
    | none =>
      refine .inr ⟨[], ⟨behaviour, [], given, reads.push ⟨asked, 0⟩⟩, ?_, rfl, rfl,
        fun _ => ⟨rfl, rfl⟩⟩
      unfold Source.read
      simp only [hfailure, List.take_nil, List.drop_nil, List.length_nil, Nat.add_zero]
      rfl
  | cons byte rest =>
    have hpositive : 0 < min asked (behaviour.portion given asked) :=
      Nat.lt_min.mpr ⟨hasked, h given asked hasked⟩
    set portion := (byte :: rest).take (min asked (behaviour.portion given asked)) with hportion
    have hdrop : (byte :: rest).drop portion.length =
        (byte :: rest).drop (min asked (behaviour.portion given asked)) := by
      rw [List.drop_eq_drop_iff, hportion, List.length_take, Nat.min_assoc, Nat.min_self]
    refine .inr ⟨portion, ⟨behaviour, (byte :: rest).drop portion.length, given + portion.length,
      reads.push ⟨asked, portion.length⟩⟩, ?_, rfl, ?_, fun hnone => ?_⟩
    · unfold Source.read
      simp only [List.isEmpty_cons]
      rfl
    · show byte :: rest = portion ++ (byte :: rest).drop portion.length
      rw [hdrop, List.take_append_drop]
    · simp only [portion, List.take_eq_nil_iff, reduceCtorEq, or_false] at hnone
      omega

namespace ReadStream

/-- The bytes not consumed yet: those that are there, then those that are still to come in. -/
def unread (stream : ReadStream) : List UInt8 := stream.resident.toList ++ stream.source.rest

theorem length_unread {stream : ReadStream} :
    stream.unread.length = stream.available + stream.source.rest.length := by
  unfold unread
  rw [List.length_append, ByteQueue.length_toList]
  rfl

/-! ## Streams in use -/

/-- A stream in use whose source flows. -/
structure Steady (stream : ReadStream) : Prop where
  source : stream.source.behaviour.Flows
  chunk : 0 < stream.chunk
  live : stream.state.isOver = false
  complete : stream.complete = true →
    stream.source.rest = [] ∧ stream.source.behaviour.failure = none

/-- `later` is the stream with `bytes` consumed. -/
structure Moves (stream later : ReadStream) (bytes : List UInt8) : Prop where
  steady : later.Steady
  behaviour : later.source.behaviour = stream.source.behaviour
  unread : stream.unread = bytes ++ later.unread
  consumed : later.consumed = stream.consumed + bytes.length
  path : later.path = stream.path

theorem Moves.refl {stream : ReadStream} (h : stream.Steady) : stream.Moves stream [] :=
  ⟨h, rfl, rfl, rfl, rfl⟩

theorem Moves.trans {first second third : ReadStream} {xs ys : List UInt8}
    (h : first.Moves second xs) (h' : second.Moves third ys) : first.Moves third (xs ++ ys) :=
  ⟨h'.steady, h'.behaviour.trans h.behaviour, by rw [h.unread, h'.unread, List.append_assoc],
    by rw [h'.consumed, h.consumed, List.length_append, Nat.add_assoc], h'.path.trans h.path⟩

/-- How a stream fails that has too few bytes: its source fails, or it ends. -/
def Lacks (stream : ReadStream) (error : Error) : Prop :=
  match stream.source.behaviour.failure with
  | some cause => error = .io stream.path cause
  | none => ∃ needed, error = .unexpectedEnd stream.path needed

theorem Moves.lacks {stream later : ReadStream} {bytes : List UInt8} {error : Error}
    (h : stream.Moves later bytes) (hlacks : later.Lacks error) : stream.Lacks error := by
  unfold Lacks at hlacks ⊢
  rwa [h.behaviour, h.path] at hlacks

/-- An operation that needs `count` unread bytes: with so many it succeeds with `a` and consumes
`bytes`, and with fewer it fails. -/
structure Draws {α : Type} (stream : ReadStream) (count : Nat) (bytes : List UInt8) (a : α)
    (outcome : Outcome ReadStream α) : Prop where
  enough : count ≤ stream.unread.length → outcome.result = .ok a ∧ stream.Moves outcome.stream bytes
  short : stream.unread.length < count → ∃ error, outcome.result = .error error ∧ stream.Lacks error
  quiet : ∀ event ∈ outcome.events, event.Quiet

variable {stream : ReadStream}

theorem draws_of_enough {α : Type} {count : Nat} {bytes : List UInt8} {a : α}
    {outcome : Outcome ReadStream α} (henough : count ≤ stream.unread.length)
    (hok : outcome.result = .ok a) (hmoves : stream.Moves outcome.stream bytes)
    (hquiet : ∀ event ∈ outcome.events, event.Quiet) : Draws stream count bytes a outcome :=
  ⟨fun _ => ⟨hok, hmoves⟩, fun hshort => absurd henough (Nat.not_le.mpr hshort), hquiet⟩

theorem draws_of_short {α : Type} {count : Nat} {bytes : List UInt8} {a : α}
    {outcome : Outcome ReadStream α} {error : Error} (hshort : stream.unread.length < count)
    (herror : outcome.result = .error error) (hlacks : stream.Lacks error)
    (hquiet : ∀ event ∈ outcome.events, event.Quiet) : Draws stream count bytes a outcome :=
  ⟨fun henough => absurd henough (Nat.not_le.mpr hshort), fun _ => ⟨error, herror, hlacks⟩, hquiet⟩

/-! ## Filling -/

/-- A chunk comes in, the end is seen, or the source fails. -/
theorem fillOnce_steady (h : stream.Steady) (hcomplete : stream.complete = false) :
    ((stream.fillOnce.result = .ok () ∧ stream.Moves stream.fillOnce.stream []) ∨
      ∃ cause, stream.source.behaviour.failure = some cause ∧ stream.source.rest = [] ∧
        stream.fillOnce.result = .error (.io stream.path cause)) ∧
      ∀ event ∈ stream.fillOnce.events, event.Quiet := by
  obtain ⟨source, resident, chunk, consumed, complete, state, path⟩ := stream
  obtain rfl : complete = false := hcomplete
  unfold fillOnce
  rcases Source.read_flows h.source h.chunk with
    ⟨cause, hfailure, hrest, hread⟩ | ⟨portion, later, hread, hbehaviour, hrest, hend⟩
  · change source.read chunk = _ at hread
    simp only [hread]
    exact ⟨.inr ⟨cause, hfailure, hrest, rfl⟩, List.forall_mem_nil _⟩
  · change source.read chunk = _ at hread
    change source.rest = _ at hrest
    have hflows : later.behaviour.Flows := hbehaviour ▸ h.source
    simp only [hread]
    cases portion with
    | nil =>
      obtain ⟨hlater, hfailure⟩ := hend rfl
      refine ⟨.inl ⟨rfl, ⟨hflows, h.chunk, rfl, fun _ => ⟨hlater, hbehaviour ▸ hfailure⟩⟩,
        hbehaviour, ?_, rfl, rfl⟩, ?_⟩
      · show resident.toList ++ source.rest = resident.toList ++ later.rest
        rw [hrest, List.nil_append]
      · simp [receive, Event.Quiet]
    | cons byte rest =>
      refine ⟨.inl ⟨rfl, ⟨hflows, h.chunk, rfl, ?_⟩, hbehaviour, ?_, rfl, rfl⟩, ?_⟩
      · intro hno
        cases hno
      · show resident.toList ++ source.rest = (resident.push (byte :: rest)).toList ++ later.rest
        rw [hrest, ByteQueue.toList_push, List.append_assoc]
      · simp [receive, Event.Quiet]

/-- Unread bytes come in if there are enough of them, and then they are there. -/
theorem fillUntil_draws {stream : ReadStream} (h : stream.Steady) (count : Nat)
    (events : List Event) (hevents : ∀ event ∈ events, event.Quiet) :
    Draws stream count [] () (stream.fillUntil count events) ∧
      (count ≤ stream.unread.length →
        count ≤ (stream.fillUntil count events).stream.available) := by
  rw [fillUntil, if_neg (by rw [h.live]; exact Bool.false_ne_true)]
  by_cases havailable : count ≤ stream.available
  · have henough : count ≤ stream.unread.length := by rw [length_unread]; omega
    rw [dif_pos havailable]
    exact ⟨draws_of_enough henough rfl (.refl h) (Event.quiet_reverse hevents),
      fun _ => havailable⟩
  rw [dif_neg havailable]
  by_cases hcomplete : stream.complete = true
  · obtain ⟨hrest, hfailure⟩ := h.complete hcomplete
    have hshort : stream.unread.length < count := by
      rw [length_unread, hrest]
      exact Nat.lt_of_not_le havailable
    rw [dif_pos hcomplete]
    refine ⟨draws_of_short hshort rfl ?_ (Event.quiet_reverse hevents),
      fun henough => absurd henough (Nat.not_le.mpr hshort)⟩
    simp only [Lacks, hfailure]
    exact ⟨_, rfl⟩
  rw [dif_neg hcomplete]
  obtain ⟨hfill, hquiet⟩ := fillOnce_steady h (eq_false_of_ne_true hcomplete)
  have hmore := Event.quiet_append (Event.quiet_reverse hquiet) hevents
  split
  · next error filled more heq =>
    rw [heq] at hfill hmore
    rcases hfill with ⟨hok, -⟩ | ⟨cause, hfailure, hrest, herror⟩
    · cases hok
    have hshort : stream.unread.length < count := by
      rw [length_unread, hrest]
      exact Nat.lt_of_not_le havailable
    cases herror
    refine ⟨draws_of_short hshort rfl ?_ (Event.quiet_reverse hmore),
      fun henough => absurd henough (Nat.not_le.mpr hshort)⟩
    simp only [Lacks, hfailure]
  · next filled more heq =>
    have hless := outstanding_lt_of_fillOnce_eq havailable hcomplete heq
    rw [heq] at hfill hmore
    rcases hfill with ⟨-, hmoves⟩ | ⟨_, _, _, herror⟩
    · have hunread := hmoves.unread
      rw [List.nil_append] at hunread
      obtain ⟨⟨henough, hshort, hquiet⟩, hthere⟩ := fillUntil_draws hmoves.steady count _ hmore
      refine ⟨⟨fun hcount => ?_, fun hcount => ?_, hquiet⟩, fun hcount => hthere (hunread ▸ hcount)⟩
      · obtain ⟨hok, hlater⟩ := henough (hunread ▸ hcount)
        exact ⟨hok, hmoves.trans hlater⟩
      · obtain ⟨error, herror, hlacks⟩ := hshort (hunread ▸ hcount)
        exact ⟨error, herror, hmoves.lacks hlacks⟩
    · cases herror
termination_by stream.outstanding count
decreasing_by assumption

/-- **Waiting draws nothing**, and fails if too few bytes are left. -/
theorem await_draws (h : stream.Steady) (count : Nat) :
    Draws stream count [] () (stream.await count) :=
  (fillUntil_draws h count [] (fun _ he => nomatch he)).1

/-! ## Consuming -/

/-- Bytes that are there are consumed at once. -/
theorem take_moves (h : stream.Steady) {count : Nat} (hcount : count ≤ stream.available) :
    (stream.take count).result = .ok (stream.unread.take count) ∧
      stream.Moves (stream.take count).stream (stream.unread.take count) := by
  have htake : stream.unread.take count = stream.resident.toList.take count := by
    unfold unread
    rw [List.take_append_of_le_length (by rw [ByteQueue.length_toList]; exact hcount)]
  unfold take
  rw [if_neg (Nat.not_lt.mpr hcount)]
  refine ⟨?_, ⟨⟨h.source, h.chunk, h.live, h.complete⟩, rfl, ?_, ?_, rfl⟩⟩
  · rw [htake]
    exact congrArg Except.ok (ByteQueue.pop_fst _ _)
  · show stream.unread = _ ++ ((stream.resident.pop count).2.toList ++ stream.source.rest)
    rw [ByteQueue.toList_pop_snd, htake, ← List.append_assoc, List.take_append_drop]
    rfl
  · show stream.consumed + count = stream.consumed + _
    rw [htake, List.length_take_of_le (by rw [ByteQueue.length_toList]; exact hcount)]

theorem take_events (stream : ReadStream) (count : Nat) : (stream.take count).events = [] := by
  unfold take
  split <;> rfl

/-- **Fetching draws the next bytes**, and fails if too few are left. -/
theorem fetch_draws (h : stream.Steady) (count : Nat) :
    Draws stream count (stream.unread.take count) (stream.unread.take count)
      (stream.fetch count) := by
  obtain ⟨⟨henough, hshort, hquiet⟩, hthere⟩ :=
    fillUntil_draws h count [] (fun _ he => nomatch he)
  change Draws stream count _ _ (Outcome.bind (stream.fillUntil count []) _)
  cases hfilled : stream.fillUntil count [] with | mk result filled events
  rw [hfilled] at henough hshort hquiet hthere
  by_cases hcount : count ≤ stream.unread.length
  · obtain ⟨rfl, hmoves⟩ := henough hcount
    have hunread : stream.unread = filled.unread := hmoves.unread
    obtain ⟨hok, htaken⟩ := take_moves hmoves.steady (hthere hcount)
    rw [← hunread] at hok htaken
    refine draws_of_enough hcount hok (hmoves.trans htaken) ?_
    simpa [Outcome.bind, take_events] using hquiet
  · have hless := Nat.lt_of_not_le hcount
    obtain ⟨error, rfl, hlacks⟩ := hshort hless
    exact draws_of_short hless rfl hlacks hquiet

/-- Runs longer than a chunk are consumed chunk by chunk. -/
theorem collect_draws {stream : ReadStream} (h : stream.Steady) (count : Nat)
    (before : Array UInt8) (events : List Event) (hevents : ∀ event ∈ events, event.Quiet) :
    Draws stream count (stream.unread.take count) (before.toList ++ stream.unread.take count)
      (stream.collect count before events) := by
  rw [collect]
  by_cases hzero : count = 0
  · rw [if_pos hzero, hzero, List.take_zero, List.append_nil]
    exact draws_of_enough (Nat.zero_le _) rfl (.refl h) (Event.quiet_reverse hevents)
  rw [if_neg hzero]
  have hportion : max 1 (min count stream.chunk) ≤ count := by omega
  have hpositive : 0 < max 1 (min count stream.chunk) := by omega
  generalize max 1 (min count stream.chunk) = portion at hportion hpositive ⊢
  obtain ⟨henough, hshort, hquiet⟩ := fetch_draws h portion
  have hmore := Event.quiet_append (Event.quiet_reverse hquiet) hevents
  by_cases hfirst : portion ≤ stream.unread.length
  · obtain ⟨hok, hmoves⟩ := henough hfirst
    have hunread : (stream.fetch portion).stream.unread = stream.unread.drop portion :=
      (List.append_cancel_left ((List.take_append_drop _ _).trans hmoves.unread)).symm
    have hrest := collect_draws hmoves.steady (count - portion)
      (before ++ stream.unread.take portion) _ hmore
    have hjoin : stream.unread.take portion ++ (stream.unread.drop portion).take (count - portion) =
        stream.unread.take count := by
      rw [← List.take_add, Nat.add_sub_of_le hportion]
    rw [hunread, Array.toList_appendList, List.append_assoc, hjoin] at hrest
    simp only [hok]
    refine ⟨fun hcount => ?_, fun hcount => ?_, hrest.quiet⟩
    · obtain ⟨hresult, hlater⟩ := hrest.enough (by rw [hunread, List.length_drop]; omega)
      exact ⟨hresult, hjoin ▸ hmoves.trans hlater⟩
    · obtain ⟨error, herror, hlacks⟩ := hrest.short (by rw [hunread, List.length_drop]; omega)
      exact ⟨error, herror, hmoves.lacks hlacks⟩
  · have hless := Nat.lt_of_not_le hfirst
    obtain ⟨error, herror, hlacks⟩ := hshort hless
    simp only [herror]
    exact draws_of_short (Nat.lt_of_lt_of_le hless hportion) rfl hlacks (Event.quiet_reverse hmore)
termination_by count
decreasing_by omega

/-- **Reading draws the next bytes**, whatever the size of a chunk, and fails if too few are
left. -/
theorem readBytes_draws (h : stream.Steady) (count : Nat) :
    Draws stream count (stream.unread.take count) (stream.unread.take count)
      (stream.readBytes count) :=
  collect_draws h count #[] [] (fun _ he => nomatch he)

/-! ## Sources that do not fail -/

/-- A stream in use whose source is generous. -/
structure Healthy (stream : ReadStream) : Prop where
  source : stream.source.behaviour.Generous
  chunk : 0 < stream.chunk
  live : stream.state.isOver = false
  complete : stream.complete = true → stream.source.rest = []

theorem Healthy.steady (h : stream.Healthy) : stream.Steady :=
  ⟨h.source.portion, h.chunk, h.live, fun hend => ⟨h.complete hend, h.source.failure⟩⟩

theorem Steady.healthy (h : stream.Steady) (hfailure : stream.source.behaviour.failure = none) :
    stream.Healthy :=
  ⟨⟨hfailure, h.source⟩, h.chunk, h.live, fun hend => (h.complete hend).1⟩

/-- `later` is the stream with `bytes` consumed. -/
structure Advances (stream later : ReadStream) (bytes : List UInt8) : Prop where
  healthy : later.Healthy
  unread : stream.unread = bytes ++ later.unread
  consumed : later.consumed = stream.consumed + bytes.length
  path : later.path = stream.path

/-- An operation that succeeded with the result `a` and consumed `bytes`. -/
structure Gives {α : Type} (stream : ReadStream) (bytes : List UInt8) (a : α)
    (outcome : Outcome ReadStream α) : Prop where
  ok : outcome.result = .ok a
  advanced : stream.Advances outcome.stream bytes
  quiet : ∀ event ∈ outcome.events, event.Quiet

/-- What draws no more than is left succeeds. -/
theorem Draws.gives {α : Type} {count : Nat} {bytes : List UInt8} {a : α}
    {outcome : Outcome ReadStream α} (hdraws : Draws stream count bytes a outcome)
    (h : stream.Healthy) (hcount : count ≤ stream.unread.length) :
    Gives stream bytes a outcome := by
  obtain ⟨hok, hmoves⟩ := hdraws.enough hcount
  have hfailure : outcome.stream.source.behaviour.failure = none := by
    rw [hmoves.behaviour]
    exact h.source.failure
  exact ⟨hok, ⟨hmoves.steady.healthy hfailure, hmoves.unread, hmoves.consumed, hmoves.path⟩,
    hdraws.quiet⟩

/-- **Unread bytes can be fetched.** -/
theorem fetch_gives (h : stream.Healthy) {bytes rest : List UInt8}
    (hunread : stream.unread = bytes ++ rest) :
    Gives stream bytes bytes (stream.fetch bytes.length) := by
  have hdraws := fetch_draws h.steady bytes.length
  rw [hunread, List.take_left] at hdraws
  exact hdraws.gives h (by simp [hunread])

/-- **Unread bytes can be read**, whatever the size of a chunk. -/
theorem readBytes_gives (h : stream.Healthy) {bytes rest : List UInt8}
    (hunread : stream.unread = bytes ++ rest) :
    Gives stream bytes bytes (stream.readBytes bytes.length) := by
  have hdraws := readBytes_draws h.steady bytes.length
  rw [hunread, List.take_left] at hdraws
  exact hdraws.gives h (by simp [hunread])

/-! ## The beginning of a file -/

theorem steady_create {behaviour : SourceBehaviour} (h : behaviour.Flows) (chunk : Nat)
    (path : String) : (create behaviour chunk path).Steady :=
  ⟨h, Nat.lt_of_lt_of_le Nat.one_pos (Nat.le_max_right _ _), rfl, (fun hno => nomatch hno)⟩

theorem healthy_create {behaviour : SourceBehaviour} (h : behaviour.Generous) (chunk : Nat)
    (path : String) : (create behaviour chunk path).Healthy :=
  (steady_create h.portion chunk path).healthy h.failure

@[simp] theorem unread_create (behaviour : SourceBehaviour) (chunk : Nat) (path : String) :
    (create behaviour chunk path).unread = behaviour.data := rfl

end ReadStream

end ByteLayout
