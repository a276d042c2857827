import ByteLayout.Proofs.Faults
import ByteLayout.Proofs.Nesting

/-!
# Inside a file

In a file, a read pass deals with the stream of that file and with nothing else: it opens and closes
none (`Read.Inside`), whatever the decoders of the layout ask.

**Theorem (`Stage.follow_inside`).** So what comes of such a plan depends on the open stream alone,
and not on what was read before.
-/

namespace ByteLayout

/-! ## Streams in front of any source -/

namespace ReadStream

variable {α β : Type} {stream : ReadStream}

/-- What can be said of an operation whatever the source does. It leaves the path as it is and, if
it succeeds, does not end the stream; with a failure of the source, the stream is errored. -/
structure Endures (stream : ReadStream) (outcome : Outcome ReadStream α) : Prop where
  path : outcome.stream.path = stream.path
  isOver : ∀ a, outcome.result = .ok a → outcome.stream.state.isOver = stream.state.isOver
  failed : ∀ path cause, outcome.result = .error (.io path cause) →
    outcome.stream.state = .errored

/-- A success that leaves the state as it is. -/
theorem endures_ok {a : α} {later : ReadStream} {events : List Event}
    (hpath : later.path = stream.path) (hstate : later.state.isOver = stream.state.isOver) :
    Endures stream ⟨.ok a, later, events⟩ :=
  ⟨hpath, fun _ _ => hstate, nofun⟩

/-- A failure that the source has no part in. -/
theorem endures_refused {error : Error} {events : List Event}
    (h : ∀ path cause, error ≠ .io path cause) :
    Endures stream (⟨.error error, stream, events⟩ : Outcome ReadStream α) :=
  ⟨rfl, nofun, fun path cause hfailed => absurd (Except.error.inj hfailed) (h path cause)⟩

/-- A failure that is passed on. -/
theorem Endures.fail {outcome : Outcome ReadStream α} (h : Endures stream outcome) {error : Error}
    (herror : outcome.result = .error error) (events : List Event) :
    Endures stream (⟨.error error, outcome.stream, events⟩ : Outcome ReadStream β) :=
  ⟨h.path, nofun, fun path cause hfailed =>
    h.failed path cause (herror.trans (congrArg _ (Except.error.inj hfailed)))⟩

theorem Endures.trans {outcome : Outcome ReadStream α} {last : Outcome ReadStream β}
    (h : Endures stream outcome) {a : α} (hok : outcome.result = .ok a)
    (hlast : Endures outcome.stream last) : Endures stream last :=
  ⟨hlast.path.trans h.path, fun b hb => (hlast.isOver b hb).trans (h.isOver a hok), hlast.failed⟩

theorem Endures.bind {outcome : Outcome ReadStream α} {f : ReadStream → α → Outcome ReadStream β}
    (h : Endures stream outcome) (hf : ∀ later a, Endures later (f later a)) :
    Endures stream (outcome.bind f) := by
  obtain ⟨result, later, events⟩ := outcome
  cases result with
  | error error => exact h.fail rfl events
  | ok a =>
    obtain ⟨hpath, hisOver, hfailed⟩ := h.trans rfl (hf later a)
    exact ⟨hpath, hisOver, hfailed⟩

theorem fillOnce_endures (h : stream.state.isOver = false) : Endures stream stream.fillOnce := by
  obtain ⟨source, resident, chunk, consumed, complete, state, path⟩ := stream
  unfold fillOnce
  dsimp only
  rcases source.read chunk with ⟨later, error | bytes⟩
  · exact ⟨rfl, nofun, fun _ _ _ => rfl⟩
  · cases bytes with
    | nil => exact endures_ok rfl h.symm
    | cons byte rest => exact endures_ok rfl h.symm

theorem fillUntil_endures (stream : ReadStream) (count : Nat) (events : List Event) :
    Endures stream (stream.fillUntil count events) := by
  rw [fillUntil]
  by_cases hover : stream.state.isOver = true
  · rw [if_pos hover]
    exact endures_refused (by simp)
  rw [if_neg hover]
  by_cases havailable : count ≤ stream.available
  · rw [dif_pos havailable]
    exact endures_ok rfl rfl
  rw [dif_neg havailable]
  by_cases hcomplete : stream.complete = true
  · rw [dif_pos hcomplete]
    exact endures_refused (by simp)
  rw [dif_neg hcomplete]
  have hfill := fillOnce_endures (eq_false_of_ne_true hover)
  split
  · next error filled more heq =>
    rw [heq] at hfill
    exact hfill.fail rfl _
  · next filled more heq =>
    have hless := outstanding_lt_of_fillOnce_eq havailable hcomplete heq
    have hrest := fillUntil_endures filled count (more.reverse ++ events)
    rw [heq] at hfill
    exact hfill.trans rfl hrest
termination_by stream.outstanding count
decreasing_by assumption

theorem await_endures (stream : ReadStream) (count : Nat) : Endures stream (stream.await count) :=
  fillUntil_endures stream count []

theorem take_endures (stream : ReadStream) (count : Nat) : Endures stream (stream.take count) := by
  unfold take
  by_cases hshort : stream.available < count
  · rw [if_pos hshort]
    exact endures_refused (by simp)
  · rw [if_neg hshort]
    exact endures_ok rfl rfl

theorem fetch_endures (stream : ReadStream) (count : Nat) : Endures stream (stream.fetch count) :=
  (await_endures stream count).bind fun later _ => take_endures later count

theorem collect_endures (stream : ReadStream) (count : Nat) (bytes : Array UInt8)
    (events : List Event) : Endures stream (stream.collect count bytes events) := by
  rw [collect]
  by_cases hzero : count = 0
  · rw [if_pos hzero]
    exact endures_ok rfl rfl
  rw [if_neg hzero]
  dsimp only
  have hfetch := fetch_endures stream (max 1 (min count stream.chunk))
  split
  · next error herror => exact hfetch.fail herror _
  · next more hok => exact hfetch.trans hok (collect_endures _ _ _ _)
termination_by count
decreasing_by omega

theorem readBytes_endures (stream : ReadStream) (count : Nat) :
    Endures stream (stream.readBytes count) :=
  collect_endures stream count #[] []

end ReadStream

namespace Read

/-! ## Plans inside a file -/

/-- Whether a question neither opens nor closes a file. -/
def Question.Inside : Question → Prop
  | .openFile _ | .closeFile _ => False
  | _ => True

/-- Whether a dialogue neither opens nor closes a file. -/
def Inside {α : Type} : Dialogue Question.Reply α → Prop
  | .done _ => True
  | .ask question next => question.Inside ∧ ∀ reply, Inside (next reply)

theorem Inside.bind {α β : Type} {f : α → Dialogue Question.Reply β} (hf : ∀ a, Inside (f a)) :
    ∀ {dialogue : Dialogue Question.Reply α}, Inside dialogue → Inside (dialogue.bind f)
  | .done a, _ => hf a
  | .ask _ _, ⟨hquestion, hnext⟩ => ⟨hquestion, fun reply => (hnext reply).bind hf⟩

namespace Plan

variable {α : Type}

theorem inside_closed : Closed fun _ plan => Inside plan where
  done _ := trivial
  bind hplan hf := Inside.bind (fun
    | .ok a => hf a
    | .error _ => trivial) hplan
  event _ := ⟨trivial, fun _ => trivial⟩
  field _ _ := ⟨trivial, fun _ => trivial⟩
  fetch _ := ⟨trivial, fun _ => trivial⟩
  read _ := ⟨trivial, fun _ => trivial⟩

/-- A decoder stays inside its file, whatever it asks. -/
theorem inside_decode (path : String) : ∀ decoding : Decoding α, Inside (decode path decoding)
  | .done _ => trivial
  | .ask question next => by
    have hnext : ∀ reply, Inside (decode path (next reply)) := fun reply =>
      inside_decode path (next reply)
    cases question <;> exact ⟨trivial, hnext⟩

end Plan

namespace Pass

variable (pass : Pass)

/-- **Inside a file no file is opened**: one more is refused before anything is asked. -/
theorem inside_closed :
    pass.Closed (fun _ plan => Inside plan) (fun scope => scope.file.isSome = true)
      fun _ => True where
  toClosed := Plan.inside_closed
  withOrder _ h := h
  inField _ h := h
  item _ h := h
  enterDir _ h := h
  file relative record content h _ := by
    unfold inFile
    rw [Scope.enterFile_refused h]
    trivial
  decode _ path context := Plan.inside_decode path _

end Pass

/-! ## Following them -/

namespace Stage

variable {α : Type} {setup : Setup} {stage : Stage} {stream : ReadStream}

/-- What is asked of the open stream is answered by it, whatever surrounds it. -/
theorem answer_inside {question : Question} (h : question.Inside) (setup : Setup)
    (stream : ReadStream) : ∃ reply moved, ∃ events : List Event, moved.path = stream.path ∧
      ∀ journal streams, answer setup ⟨journal, streams, some stream⟩ question =
        (reply, ⟨journal ++ events, streams, some moved⟩) := by
  cases question with
  | record event => exact ⟨(), stream, [event], rfl, fun _ _ => rfl⟩
  | field path kind =>
    exact ⟨(), stream, [.trace (.field .read setup.debug path kind stream.position)], rfl,
      fun _ _ => rfl⟩
  | openFile path => cases h
  | closeFile path => cases h
  | await count => exact ⟨_, _, _, (stream.await_endures count).path, fun _ _ => rfl⟩
  | fetch count => exact ⟨_, _, _, (stream.fetch_endures count).path, fun _ _ => rfl⟩
  | read count => exact ⟨_, _, _, (stream.readBytes_endures count).path, fun _ _ => rfl⟩
  | position => exact ⟨_, stream, [], rfl, fun _ _ => rfl⟩

/-- **What comes of a plan inside a file depends on the open stream alone.** -/
theorem follow_inside {dialogue : Dialogue Question.Reply α} (h : Inside dialogue) (setup : Setup)
    (stream : ReadStream) : ∃ result moved, ∃ events : List Event, moved.path = stream.path ∧
      ∀ journal streams, answerAll setup ⟨journal, streams, some stream⟩ dialogue =
        (result, ⟨journal ++ events, streams, some moved⟩) := by
  induction dialogue generalizing stream with
  | done result => exact ⟨result, stream, [], rfl, fun _ _ => by simp [answerAll]⟩
  | ask question next ih =>
    obtain ⟨reply, moved, events, hpath, hanswer⟩ := answer_inside h.1 setup stream
    obtain ⟨result, last, more, hlast, hrest⟩ := ih reply (h.2 reply) moved
    refine ⟨result, last, events ++ more, hlast.trans hpath, fun journal streams => ?_⟩
    rw [answerAll, hanswer]
    dsimp only
    rw [hrest, show journal ++ (events ++ more) = journal ++ events ++ more from
      (Array.ext' (by simp)).symm]

/-- A stage at which nothing but a stream is known. -/
def alone (stream : ReadStream) : Stage := ⟨#[], #[], some stream⟩

theorem follow_enclosed {plan : Plan α} (h : Inside plan) (setup : Setup)
    (hcurrent : stage.current = some stream) : ∃ moved, ∃ events : List Event,
      moved.path = stream.path ∧
        stage.follow setup plan = (((alone stream).follow setup plan).1,
          ⟨stage.journal ++ events, stage.streams, some moved⟩) := by
  obtain ⟨journal, streams, current⟩ := stage
  obtain rfl : current = some stream := hcurrent
  obtain ⟨result, moved, events, hpath, hfollow⟩ := follow_inside h setup stream
  refine ⟨moved, events, hpath, ?_⟩
  rw [show (alone stream).follow setup plan = _ from hfollow #[] #[]]
  exact hfollow journal streams

/-! ## Opening -/

/-- A stage at which a file has just been opened. -/
def opened (setup : Setup) (stage : Stage) (path : String) (behaviour : SourceBehaviour) : Stage :=
  { stage.log [.opened path, .trace (.readReady path setup.chunk)] with
    current := some (.create behaviour setup.chunk path) }

theorem follow_openFile (setup : Setup) (stage : Stage) (path : String) :
    stage.follow setup (.openFile path) =
      match setup.opener stage.openedPaths path with
      | .error error => (.error error, stage)
      | .ok behaviour => (.ok (), stage.opened setup path behaviour) := by
  show stage.openStream setup path = _
  unfold openStream
  cases setup.opener stage.openedPaths path <;> rfl

end Stage

end Read

end ByteLayout
