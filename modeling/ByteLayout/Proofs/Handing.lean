import ByteLayout.Proofs.ReadStream
import ByteLayout.Stream.Operation

/-!
# What a read stream hands out

Whatever its source does, and in whatever state it is, a stream hands out the bytes of the source in
order and each of them once. `stream.Consumes later used` says that `later` is the stream with the
unread bytes `used` consumed; none of the others is lost.

`Hands stream gives outcome` says of an operation that it consumes some bytes, which `gives` relates
to its result, and that a stream in use stays one unless its source fails. **Theorem**
(`await_hands`, `take_hands`, `fetch_hands`, `readBytes_hands`): waiting consumes nothing, and an
operation that succeeds gives the run of bytes that it consumed.
-/

namespace ByteLayout

/-- Whether no sink and no source failed. -/
def Outcome.Unbroken {Stream α : Type} (outcome : Outcome Stream α) : Prop :=
  ∀ path cause, outcome.result ≠ .error (.io path cause)

theorem Outcome.unbroken_of_ok {Stream α : Type} {outcome : Outcome Stream α} {a : α}
    (h : outcome.result = .ok a) : outcome.Unbroken := by
  intro path cause hfailed
  rw [h] at hfailed
  cases hfailed

/-- A read brings in a run of the bytes that are left; one that fails brings in none. -/
theorem Source.read_brings (source : Source) (asked : Nat) :
    ∃ portion, source.rest = portion ++ (source.read asked).1.rest ∧
      (source.read asked).1.given = source.given + portion.length ∧
      (source.read asked).1.behaviour = source.behaviour ∧
      ((source.read asked).2 = .ok portion ∨
        portion = [] ∧ ∃ cause, (source.read asked).2 = .error cause) := by
  obtain ⟨behaviour, rest, given, reads⟩ := source
  unfold Source.read
  dsimp only
  split
  · next error _ _ => exact ⟨[], rfl, rfl, rfl, .inr ⟨rfl, error, rfl⟩⟩
  · generalize min asked (behaviour.portion given asked) = count
    have hdrop : rest.drop (rest.take count).length = rest.drop count := by
      rw [List.drop_eq_drop_iff, List.length_take, Nat.min_assoc, Nat.min_self]
    refine ⟨rest.take count, ?_, rfl, rfl, .inl rfl⟩
    show rest = _ ++ rest.drop (rest.take count).length
    rw [hdrop, List.take_append_drop]

namespace ReadStream

variable {α β : Type} {stream : ReadStream}

/-- `later` is the stream with the unread bytes `used` consumed. What the source has delivered, and
what it has still to deliver, are all its bytes. -/
structure Consumes (stream later : ReadStream) (used : List UInt8) : Prop where
  unread : stream.unread = used ++ later.unread
  consumed : later.consumed = stream.consumed + used.length
  given : later.source.given + later.source.rest.length =
    stream.source.given + stream.source.rest.length
  behaviour : later.source.behaviour = stream.source.behaviour
  path : later.path = stream.path

theorem Consumes.refl (stream : ReadStream) : stream.Consumes stream [] := ⟨rfl, rfl, rfl, rfl, rfl⟩

theorem Consumes.trans {first second third : ReadStream} {xs ys : List UInt8}
    (h : first.Consumes second xs) (h' : second.Consumes third ys) :
    first.Consumes third (xs ++ ys) where
  unread := by rw [h.unread, h'.unread, List.append_assoc]
  consumed := by rw [h'.consumed, h.consumed, List.length_append, Nat.add_assoc]
  given := h'.given.trans h.given
  behaviour := h'.behaviour.trans h.behaviour
  path := h'.path.trans h.path

/-- Bytes that come in are unread. -/
theorem fillOnce_consumes (stream : ReadStream) : stream.Consumes stream.fillOnce.stream [] := by
  obtain ⟨source, resident, chunk, consumed, complete, state, path⟩ := stream
  obtain ⟨portion, hrest, hgiven, hbehaviour, hanswer⟩ := source.read_brings chunk
  have hdelivered : (source.read chunk).1.given + (source.read chunk).1.rest.length =
      source.given + source.rest.length := by
    rw [hgiven, hrest, List.length_append, Nat.add_assoc]
  unfold fillOnce
  dsimp only
  rcases hanswer with hanswer | ⟨rfl, cause, hanswer⟩
  · rw [hanswer]
    cases portion with
    | nil => exact ⟨congrArg (resident.toList ++ ·) hrest, rfl, hdelivered, hbehaviour, rfl⟩
    | cons byte rest =>
      refine ⟨?_, rfl, hdelivered, hbehaviour, rfl⟩
      show resident.toList ++ source.rest =
        (resident.push (byte :: rest)).toList ++ (source.read chunk).1.rest
      rw [ByteQueue.toList_push, List.append_assoc, ← hrest]
  · rw [hanswer]
    exact ⟨congrArg (resident.toList ++ ·) hrest, rfl, hdelivered, hbehaviour, rfl⟩

theorem fillOnce_quiet (stream : ReadStream) : ∀ event ∈ stream.fillOnce.events, event.Quiet := by
  obtain ⟨source, resident, chunk, consumed, complete, state, path⟩ := stream
  unfold fillOnce
  dsimp only
  rcases (source.read chunk).2 with error | (- | ⟨byte, rest⟩)
  · exact List.forall_mem_nil _
  · simp [receive, Event.Quiet]
  · simp [receive, Event.Quiet]

/-- What an operation hands out. It consumes some bytes, which `gives` relates to its result, and a
stream in use stays one unless the source fails. -/
structure Hands (stream : ReadStream) (gives : List UInt8 → Except Error α → Prop)
    (outcome : Outcome ReadStream α) : Prop where
  consumes : ∃ used, stream.Consumes outcome.stream used ∧ gives used outcome.result
  steady : stream.Steady → outcome.Unbroken → outcome.stream.Steady
  quiet : ∀ event ∈ outcome.events, event.Quiet

variable {gives : List UInt8 → Except Error α → Prop} {gives' : List UInt8 → Except Error β → Prop}

/-- An operation that touches no byte. -/
theorem hands_nothing {result : Except Error α} {events : List Event} (h : gives [] result)
    (hquiet : ∀ event ∈ events, event.Quiet) : Hands stream gives ⟨result, stream, events⟩ :=
  ⟨⟨[], .refl stream, h⟩, fun hsteady _ => hsteady, hquiet⟩

theorem Hands.mono {gives' : List UInt8 → Except Error α → Prop} {outcome : Outcome ReadStream α}
    (h : Hands stream gives outcome)
    (hgives : ∀ used result, gives used result → gives' used result) :
    Hands stream gives' outcome := by
  obtain ⟨⟨used, hconsumes, hresult⟩, hsteady, hquiet⟩ := h
  exact ⟨⟨used, hconsumes, hgives used _ hresult⟩, hsteady, hquiet⟩

/-- A failure that is passed on. -/
theorem Hands.fail {outcome : Outcome ReadStream α} (h : Hands stream gives outcome) {error : Error}
    (herror : outcome.result = .error error) {events : List Event}
    (hevents : ∀ event ∈ events, event.Quiet)
    (hgives : ∀ used, gives used (.error error) → gives' used (.error error)) :
    Hands stream gives' ⟨.error error, outcome.stream, events⟩ := by
  obtain ⟨⟨used, hconsumes, hresult⟩, hsteady, -⟩ := h
  refine ⟨⟨used, hconsumes, hgives used (herror ▸ hresult)⟩,
    fun hlive hunbroken => hsteady hlive ?_, hevents⟩
  intro path cause hfailed
  exact hunbroken path cause (congrArg _ (Except.error.inj (herror.symm.trans hfailed)))

/-- What is handed out first comes first. -/
theorem Hands.trans {outcome : Outcome ReadStream α} {last : Outcome ReadStream β}
    (h : Hands stream gives outcome) {a : α} (hok : outcome.result = .ok a)
    (hlast : ∀ used, gives used (.ok a) →
      Hands outcome.stream (fun more => gives' (used ++ more)) last) :
    Hands stream gives' last := by
  obtain ⟨⟨used, hconsumes, hused⟩, hsteady, -⟩ := h
  obtain ⟨⟨more, hmore, hgives⟩, hsteady', hquiet⟩ := hlast used (hok ▸ hused)
  exact ⟨⟨used ++ more, hconsumes.trans hmore, hgives⟩,
    fun hlive => hsteady' (hsteady hlive (Outcome.unbroken_of_ok hok)), hquiet⟩

theorem Hands.bind {outcome : Outcome ReadStream α} {f : ReadStream → α → Outcome ReadStream β}
    (h : Hands stream gives outcome)
    (herror : ∀ used error, gives used (.error error) → gives' used (.error error))
    (hf : ∀ used a, gives used (.ok a) →
      Hands outcome.stream (fun more => gives' (used ++ more)) (f outcome.stream a)) :
    Hands stream gives' (outcome.bind f) := by
  obtain ⟨result, later, events⟩ := outcome
  cases result with
  | error error => exact h.fail rfl h.quiet fun used => herror used error
  | ok a =>
    have hlast := h.trans rfl fun used hused => hf used a hused
    obtain ⟨used, -, hused⟩ := h.consumes
    exact ⟨hlast.consumes, hlast.steady, Event.quiet_append h.quiet (hf used a hused).quiet⟩

/-! ## The operations -/

/-- Nothing is consumed. -/
def Nothing (used : List UInt8) (_ : Except Error Unit) : Prop := used = []

/-- The bytes consumed are given behind those `before`, and there are `count` of them. -/
def Run (before : List UInt8) (count : Nat) (used : List UInt8) : Except Error (List UInt8) → Prop
  | .ok bytes => bytes = before ++ used ∧ used.length = count
  | .error _ => True

theorem fillUntil_hands (stream : ReadStream) (count : Nat) {events : List Event}
    (hevents : ∀ event ∈ events, event.Quiet) :
    Hands stream Nothing (stream.fillUntil count events) := by
  have hreverse := Event.quiet_reverse hevents
  rw [fillUntil]
  by_cases hover : stream.state.isOver = true
  · rw [if_pos hover]
    exact hands_nothing rfl hreverse
  rw [if_neg hover]
  by_cases havailable : count ≤ stream.available
  · rw [dif_pos havailable]
    exact hands_nothing rfl hreverse
  rw [dif_neg havailable]
  by_cases hcomplete : stream.complete = true
  · rw [dif_pos hcomplete]
    exact hands_nothing rfl hreverse
  rw [dif_neg hcomplete]
  have hfill : Hands stream Nothing stream.fillOnce := by
    refine ⟨⟨[], fillOnce_consumes stream, rfl⟩, fun h hunbroken => ?_,
      fillOnce_quiet stream⟩
    rcases (fillOnce_steady h (eq_false_of_ne_true hcomplete)).1 with
      ⟨-, hmoves⟩ | ⟨cause, -, -, hfailed⟩
    · exact hmoves.steady
    · exact absurd hfailed (hunbroken _ cause)
  have hmore := Event.quiet_append (Event.quiet_reverse hfill.quiet) hevents
  split
  · next error filled more heq =>
    rw [heq] at hfill hmore
    exact hfill.fail rfl (Event.quiet_reverse hmore) fun _ h => h
  · next filled more heq =>
    have hless := outstanding_lt_of_fillOnce_eq havailable hcomplete heq
    rw [heq] at hfill hmore
    have hrest := fillUntil_hands filled count hmore
    refine hfill.trans rfl fun used hnone => ?_
    obtain rfl : used = [] := hnone
    exact hrest
termination_by stream.outstanding count
decreasing_by assumption

theorem await_hands (stream : ReadStream) (count : Nat) :
    Hands stream Nothing (stream.await count) :=
  fillUntil_hands stream count (List.forall_mem_nil _)

theorem take_hands (stream : ReadStream) (count : Nat) :
    Hands stream (Run [] count) (stream.take count) := by
  unfold take
  by_cases hshort : stream.available < count
  · rw [if_pos hshort]
    exact hands_nothing trivial (List.forall_mem_nil _)
  rw [if_neg hshort]
  have hlength : (stream.resident.toList.take count).length = count := by
    rw [List.length_take, ByteQueue.length_toList]
    exact Nat.min_eq_left (Nat.le_of_not_lt hshort)
  refine ⟨⟨stream.resident.toList.take count, ⟨?_, ?_, rfl, rfl, rfl⟩, ?_⟩,
    fun h _ => ⟨h.source, h.chunk, h.live, h.complete⟩, List.forall_mem_nil _⟩
  · show stream.resident.toList ++ stream.source.rest =
      _ ++ ((stream.resident.pop count).2.toList ++ stream.source.rest)
    rw [ByteQueue.toList_pop_snd, ← List.append_assoc, List.take_append_drop]
  · rw [hlength]
  · exact ⟨ByteQueue.pop_fst _ _, hlength⟩

theorem fetch_hands (stream : ReadStream) (count : Nat) :
    Hands stream (Run [] count) (stream.fetch count) := by
  refine (await_hands stream count).bind (fun _ _ _ => trivial) fun used _ hnone => ?_
  obtain rfl : used = [] := hnone
  exact take_hands _ count

/-- Bytes that come in chunks are joined. -/
theorem collect_hands (stream : ReadStream) (count : Nat) (before : Array UInt8)
    {events : List Event} (hevents : ∀ event ∈ events, event.Quiet) :
    Hands stream (Run before.toList count) (stream.collect count before events) := by
  rw [collect]
  by_cases hzero : count = 0
  · rw [if_pos hzero]
    exact hands_nothing ⟨(List.append_nil _).symm, hzero.symm⟩ (Event.quiet_reverse hevents)
  rw [if_neg hzero]
  dsimp only
  have hportion : max 1 (min count stream.chunk) ≤ count := by omega
  have hpositive : 0 < max 1 (min count stream.chunk) := by omega
  generalize max 1 (min count stream.chunk) = portion at hportion hpositive ⊢
  have hfetch := fetch_hands stream portion
  have hmore := Event.quiet_append (Event.quiet_reverse hfetch.quiet) hevents
  split
  · next error herror => exact hfetch.fail herror (Event.quiet_reverse hmore) fun _ _ => trivial
  · next more hok =>
    have hrest :=
      collect_hands (stream.fetch portion).stream (count - portion) (before ++ more) hmore
    refine hfetch.trans hok fun used hused => hrest.mono fun last result hlast => ?_
    cases result with
    | error error => trivial
    | ok bytes =>
      obtain ⟨rfl, hlength⟩ := hused
      obtain ⟨rfl, hlast⟩ := hlast
      refine ⟨?_, ?_⟩
      · rw [Array.toList_appendList, List.append_assoc]
      · rw [List.length_append, hlength, hlast, Nat.add_sub_of_le hportion]
termination_by count
decreasing_by omega

theorem readBytes_hands (stream : ReadStream) (count : Nat) :
    Hands stream (Run [] count) (stream.readBytes count) :=
  collect_hands stream count #[] (List.forall_mem_nil _)

end ReadStream

end ByteLayout
