import ByteLayout.Proofs.ReadStream
import ByteLayout.Proofs.Stopping

/-!
# The buffers of a read pass

Two passes of one plan differ in the size of their buffers and in the way in which their sources
split the bytes. Two streams are **alike** if they have consumed as much and the same bytes are
unread, with the same end behind them; two stages are if their open streams are alike and their
journals show the same.

**Step** (`Stage.answer_alike`). A question put to alike stages gets the same reply and leaves
alike stages behind, or it gets alike errors.

**Theorem (`Schema.read_bufferSize`).** Both passes open the same files, make the same callbacks and
have the same result or fail alike, provided that the decoders stop at the first failure.
-/

namespace ByteLayout

namespace ReadStream

/-! ## Streams -/

/-- Streams that have consumed as much, with the same bytes unread and the same end behind. -/
structure Alike (stream other : ReadStream) : Prop where
  steady : stream.Steady
  steadyOther : other.Steady
  unread : other.unread = stream.unread
  failure : other.source.behaviour.failure = stream.source.behaviour.failure
  consumed : other.consumed = stream.consumed
  path : other.path = stream.path

variable {stream other : ReadStream}

theorem Alike.moves {later later' : ReadStream} {bytes : List UInt8} (h : stream.Alike other)
    (hmoves : stream.Moves later bytes) (hmoves' : other.Moves later' bytes) :
    later.Alike later' where
  steady := hmoves.steady
  steadyOther := hmoves'.steady
  unread := List.append_cancel_left (hmoves'.unread.symm.trans (h.unread.trans hmoves.unread))
  failure := by rw [hmoves.behaviour, hmoves'.behaviour, h.failure]
  consumed := by rw [hmoves.consumed, hmoves'.consumed, h.consumed]
  path := by rw [hmoves.path, hmoves'.path, h.path]

/-- Alike streams fail alike. -/
theorem Alike.lacks {error error' : Error} (h : stream.Alike other) (hlacks : stream.Lacks error)
    (hlacks' : other.Lacks error') : error.Alike error' := by
  unfold Lacks at hlacks hlacks'
  rw [h.failure, h.path] at hlacks'
  cases hfailure : stream.source.behaviour.failure with
  | some cause =>
    simp only [hfailure] at hlacks hlacks'
    rw [hlacks, hlacks']
    exact .refl _
  | none =>
    simp only [hfailure] at hlacks hlacks'
    obtain ⟨needed, rfl⟩ := hlacks
    exact hlacks'

/-- An operation that draws as much from both streams succeeds or fails with both. -/
theorem Alike.draws {α : Type} {count : Nat} {bytes : List UInt8} {a : α}
    {outcome outcome' : Outcome ReadStream α} (h : stream.Alike other)
    (hdraws : Draws stream count bytes a outcome) (hdraws' : Draws other count bytes a outcome') :
    (outcome.result = .ok a ∧ outcome'.result = .ok a ∧ outcome.stream.Alike outcome'.stream) ∨
      ∃ error error', outcome.result = .error error ∧ outcome'.result = .error error' ∧
        error.Alike error' := by
  by_cases hcount : count ≤ stream.unread.length
  · obtain ⟨hok, hmoves⟩ := hdraws.enough hcount
    obtain ⟨hok', hmoves'⟩ := hdraws'.enough (by rwa [h.unread])
    exact .inl ⟨hok, hok', h.moves hmoves hmoves'⟩
  · obtain ⟨error, herror, hlacks⟩ := hdraws.short (Nat.lt_of_not_le hcount)
    obtain ⟨error', herror', hlacks'⟩ :=
      hdraws'.short (by rw [h.unread]; exact Nat.lt_of_not_le hcount)
    exact .inr ⟨error, error', herror, herror', h.lacks hlacks hlacks'⟩

/-- Streams in front of fresh sources with the same bytes. -/
theorem alike_create {behaviour behaviour' : SourceBehaviour} (h : behaviour.Flows)
    (h' : behaviour'.Flows) (hdata : behaviour'.data = behaviour.data)
    (hfailure : behaviour'.failure = behaviour.failure) (chunk chunk' : Nat) (path : String) :
    (create behaviour chunk path).Alike (create behaviour' chunk' path) :=
  ⟨steady_create h chunk path, steady_create h' chunk' path, by simp [hdata], hfailure, rfl, rfl⟩

end ReadStream

namespace Read

/-! ## Sources and results -/

/-- Openers whose sources hand out the same bytes, with the same end or failure behind them, each in
portions of its own. -/
def SourceOpener.Alike (opener other : SourceOpener) : Prop :=
  ∀ before path,
    match opener before path, other before path with
    | .ok behaviour, .ok behaviour' =>
      behaviour.Flows ∧ behaviour'.Flows ∧ behaviour'.data = behaviour.data ∧
        behaviour'.failure = behaviour.failure
    | .error error, .error error' => error' = error
    | _, _ => False

/-- Results that are equal, or errors that are alike. -/
def SameResult {α : Type} (result other : Except Error α) : Prop :=
  match result, other with
  | .ok a, .ok b => b = a
  | .error error, .error error' => error.Alike error'
  | _, _ => False

theorem SameResult.refl {α : Type} (result : Except Error α) : SameResult result result := by
  cases result with
  | ok a => rfl
  | error error => exact Error.Alike.refl error

namespace Stage

/-! ## Stages -/

/-- Stages whose open streams are alike and whose journals show the same. -/
structure Alike (stage other : Stage) : Prop where
  journal : stage.journal.Alike other.journal
  paths : other.openedPaths = stage.openedPaths
  current : Option.Rel ReadStream.Alike stage.current other.current

/-- A reply that both stages give, or errors that are alike. -/
def SameReply (question : Question) (answer other : question.Reply × Stage) : Prop :=
  (question.error? answer.1 = none ∧ other.1 = answer.1 ∧ answer.2.Alike other.2) ∨
    ∃ error error', question.error? answer.1 = some error ∧ question.error? other.1 = some error' ∧
      error.Alike error' ∧ answer.2.journal.Alike other.2.journal

variable {setup setup' : Setup} {stage other : Stage}

theorem Alike.log (h : stage.Alike other) (events : List Event) :
    (stage.log events).Alike (other.log events) :=
  ⟨h.journal.append fun _ _ _ => rfl, h.paths, h.current⟩

theorem Alike.offset (h : stage.Alike other) : other.offset = stage.offset := by
  obtain ⟨journal, streams, current⟩ := stage
  obtain ⟨journal', streams', current'⟩ := other
  cases h.current with
  | none => rfl
  | some hstream => exact hstream.consumed

/-- Something is done with both open streams that draws as much from either. -/
theorem onStream_alike {α : Type} (h : stage.Alike other)
    (operation : ReadStream → Outcome ReadStream α) (count : Nat)
    (bytes : List UInt8 → List UInt8) (a : List UInt8 → α)
    (hdraws : ∀ stream : ReadStream, stream.Steady →
      ReadStream.Draws stream count (bytes stream.unread) (a stream.unread) (operation stream)) :
    (∃ a, (stage.onStream operation).1 = .ok a ∧ (other.onStream operation).1 = .ok a ∧
        (stage.onStream operation).2.Alike (other.onStream operation).2) ∨
      ∃ error error', (stage.onStream operation).1 = .error error ∧
        (other.onStream operation).1 = .error error' ∧ error.Alike error' ∧
        (stage.onStream operation).2.journal.Alike (other.onStream operation).2.journal := by
  obtain ⟨journal, streams, current⟩ := stage
  obtain ⟨journal', streams', current'⟩ := other
  obtain ⟨hjournal, hpaths, hcurrent⟩ := h
  cases hcurrent with
  | none => exact .inr ⟨_, _, rfl, rfl, .refl _, hjournal⟩
  | @some stream stream' hstream =>
    have hfirst := hdraws stream hstream.steady
    have hsecond := hdraws stream' hstream.steadyOther
    have hlater := hjournal.append_quiet hfirst.quiet hsecond.quiet
    rw [hstream.unread] at hsecond
    rcases hstream.draws hfirst hsecond with
      ⟨hok, hok', halike⟩ | ⟨error, error', herror, herror', halike⟩
    · exact .inl ⟨_, hok, hok', hlater, hpaths, .some halike⟩
    · exact .inr ⟨error, error', herror, herror', halike, hlater⟩

theorem closeStream_alike (h : stage.Alike other) (path : String) :
    (stage.closeStream path).Alike (other.closeStream path) := by
  obtain ⟨journal, streams, current⟩ := stage
  obtain ⟨journal', streams', current'⟩ := other
  obtain ⟨hjournal, hpaths, hcurrent⟩ := h
  cases hcurrent with
  | none => exact ⟨hjournal, hpaths, .none⟩
  | @some stream stream' hstream =>
    change streams'.toList.map ReadStream.path = streams.toList.map ReadStream.path at hpaths
    refine ⟨fun α look hlook => ?_, ?_, .none⟩
    · have hread : ∀ offset, look (.trace (.fileRead path offset)) = none := fun _ =>
        hlook _ trivial
      have hclosed : ∀ closed offset, look (.trace (.readClosed closed offset)) = none :=
        fun _ _ => hlook _ trivial
      simp [closeStream, ReadStream.close, hread, hclosed, hjournal α look hlook]
    · simp [openedPaths, closeStream, ReadStream.close, hpaths, hstream.path]

theorem openStream_alike (hopener : setup.opener.Alike setup'.opener) (h : stage.Alike other)
    (path : String) :
    SameReply (.openFile path) (stage.openStream setup path) (other.openStream setup' path) := by
  have hopened := hopener stage.openedPaths path
  unfold openStream
  rw [h.paths]
  cases hfirst : setup.opener stage.openedPaths path with
  | error error =>
    cases hsecond : setup'.opener stage.openedPaths path with
    | error error' =>
      simp only [hfirst, hsecond] at hopened
      exact .inr ⟨error, error', rfl, rfl, hopened ▸ .refl _, h.journal⟩
    | ok behaviour' => simp only [hfirst, hsecond] at hopened
  | ok behaviour =>
    cases hsecond : setup'.opener stage.openedPaths path with
    | error error' => simp only [hfirst, hsecond] at hopened
    | ok behaviour' =>
      simp only [hfirst, hsecond] at hopened
      obtain ⟨hflows, hflows', hdata, hfailure⟩ := hopened
      refine .inl ⟨rfl, rfl, h.journal.append fun α look hlook => ?_, h.paths,
        .some (ReadStream.alike_create hflows hflows' hdata hfailure _ _ path)⟩
      have hready : ∀ chunk, look (.trace (.readReady path chunk)) = none := fun _ =>
        hlook _ trivial
      simp [List.filterMap_cons, hready]

/-- **Step: alike stages give the same reply, or alike errors.** -/
theorem answer_alike (hopener : setup.opener.Alike setup'.opener)
    (hdebug : setup'.debug = setup.debug) (h : stage.Alike other) (question : Question) :
    SameReply question (stage.answer setup question) (other.answer setup' question) := by
  have hdone : ∀ {α : Type} {answer answer' : Except Error α × Stage},
      ((∃ a, answer.1 = .ok a ∧ answer'.1 = .ok a ∧ answer.2.Alike answer'.2) ∨
        ∃ error error', answer.1 = .error error ∧ answer'.1 = .error error' ∧
          error.Alike error' ∧ answer.2.journal.Alike answer'.2.journal) →
      (failure? answer.1 = none ∧ answer'.1 = answer.1 ∧ answer.2.Alike answer'.2) ∨
        ∃ error error', failure? answer.1 = some error ∧ failure? answer'.1 = some error' ∧
          error.Alike error' ∧ answer.2.journal.Alike answer'.2.journal := by
    rintro α answer answer' (⟨a, hok, hok', halike⟩ | ⟨error, error', herror, herror', halike⟩)
    · exact .inl ⟨by rw [hok]; rfl, hok'.trans hok.symm, halike⟩
    · exact .inr ⟨error, error', by rw [herror]; rfl, by rw [herror']; rfl, halike⟩
  cases question with
  | record event => exact .inl ⟨rfl, rfl, h.log [event]⟩
  | field path kind =>
    refine .inl ⟨rfl, rfl, ?_⟩
    simp only [answer, h.offset, hdebug]
    exact h.log _
  | openFile path => exact openStream_alike hopener h path
  | closeFile path => exact .inl ⟨rfl, rfl, closeStream_alike h path⟩
  | await count =>
    exact hdone (onStream_alike h _ count (fun _ => []) (fun _ => ()) fun _ hsteady =>
      ReadStream.await_draws hsteady count)
  | fetch count =>
    exact hdone (onStream_alike h _ count (List.take count) (List.take count) fun _ hsteady =>
      ReadStream.fetch_draws hsteady count)
  | read count =>
    exact hdone (onStream_alike h _ count (List.take count) (List.take count) fun _ hsteady =>
      ReadStream.readBytes_draws hsteady count)
  | position => exact .inl ⟨rfl, h.offset, h⟩

/-- **Run: a plan that stops has the same result on alike stages.** -/
theorem answerAll_alike {α : Type} (hopener : setup.opener.Alike setup'.opener)
    (hdebug : setup'.debug = setup.debug) :
    ∀ {plan : Dialogue Question.Reply (Except Error α)} {stage other : Stage},
      Plan.Stops plan → stage.Alike other →
      SameResult (stage.answerAll setup plan).1 (other.answerAll setup' plan).1 ∧
        (stage.answerAll setup plan).2.journal.Alike (other.answerAll setup' plan).2.journal
  | .done result, _, _, _, h => ⟨.refl result, h.journal⟩
  | .ask question next, stage, other, ⟨hgo, hstop⟩, h => by
    have hreply := answer_alike hopener hdebug h question
    unfold answerAll
    cases hfirst : stage.answer setup question with | mk reply later
    cases hsecond : other.answer setup' question with | mk reply' later'
    rw [hfirst, hsecond] at hreply
    rcases hreply with ⟨hnone, hsame, halike⟩ | ⟨error, error', herror, herror', halike, hjournal⟩
    · obtain rfl : reply' = reply := hsame
      exact answerAll_alike hopener hdebug (hgo _ hnone) halike
    · obtain ⟨failure, failure', hfailed, hfailed', hfailures⟩ :=
        hstop reply reply' error error' herror herror' halike
      simp only [hfailed, hfailed']
      exact ⟨hfailures, hjournal⟩

end Stage

/-- Two reports that tell the same story. -/
theorem Plan.answer_alike {α : Type} {plan : Plan α} (hstops : plan.Stops) {setup setup' : Setup}
    (hopener : setup.opener.Alike setup'.opener) (hdebug : setup'.debug = setup.debug)
    {before before' : List Event}
    (hbefore : Journal.Alike (Stage.empty.log before).journal (Stage.empty.log before').journal) :
    SameResult (plan.answer setup before).result (plan.answer setup' before').result ∧
      (plan.answer setup before).journal.Alike (plan.answer setup' before').journal := by
  have habandon : ∀ stage : Stage, stage.abandon.journal = stage.journal := by
    intro stage
    unfold Stage.abandon
    cases stage.current <;> rfl
  have hempty : (Stage.empty.log before).Alike (Stage.empty.log before') := ⟨hbefore, rfl, .none⟩
  obtain ⟨hresult, hjournal⟩ := Stage.answerAll_alike hopener hdebug hstops hempty
  unfold Plan.answer
  simp only [habandon]
  exact ⟨hresult, hjournal⟩

end Read

open Read

/-- **Read buffers are invisible.** Two read passes that differ in the size of their buffers and in
how their sources split the bytes announce the same fields at the same offsets, open the same files
and make the same callbacks; and they have the same result, or fail with the same cause at the same
path. Decoders must stop at the first failure. -/
theorem Schema.read_bufferSize (schema : Schema) (hroot : schema.root.Every Kind.Stopping)
    (transform : Option Transform) (options : Options) (size size' : Nat)
    {opener opener' : SourceOpener} (hopener : opener.Alike opener') :
    let first := schema.read transform { options with bufferSize := size } opener
    let second := schema.read transform { options with bufferSize := size' } opener'
    first.journal.calls = second.journal.calls ∧
      first.journal.fields = second.journal.fields ∧
      first.journal.openings = second.journal.openings ∧
      SameResult first.result second.result := by
  intro first second
  have hwarnings : Journal.Alike
      (Stage.empty.log (Options.warnings { options with bufferSize := size } .read)).journal
      (Stage.empty.log (Options.warnings { options with bufferSize := size' } .read)).journal :=
    Journal.Alike.append (fun _ _ _ => rfl) fun _ _ hlook => by
      rw [Options.filterMap_warnings hlook, Options.filterMap_warnings hlook]
  obtain ⟨hresult, hjournal⟩ : SameResult first.result second.result ∧
      first.journal.Alike second.journal := by
    refine Plan.answer_alike (schema.readPlan_stops hroot transform options) ?_ ?_ hwarnings
    · exact hopener
    · rfl
  exact ⟨(hjournal _ _ attentive_call?).symm, (hjournal _ _ attentive_field?).symm,
    (hjournal _ _ attentive_opened?).symm, hresult⟩

/-- A text behind its length and a stamp with a decoder of its own, read through a small buffer from
a source that hands out one byte at a time, and through a large buffer from one that hands out
whatever it is asked for. Both sources fail behind the stamp's first byte. -/
theorem Schema.read_bufferSize_stamped :
    let text := Node.ofKind (.text .utf8)
    let greeting := ((Node.ofKind (.int .u16)).named "greeting").withString text
    let codec : Codec :=
      ⟨fun _ _ => pure (), fun context => do return .int (← .readInt context.order .u16)⟩
    let stamp := (Node.ofKind (.custom codec)).named "stamp"
    let schema : Schema := ⟨.ofKind (.order .big [greeting, stamp]), .root, rfl⟩
    let behaviour : SourceBehaviour :=
      { data := [0, 5, 72, 101, 108, 108, 111, 1], failure := some ⟨"TimedOut", "timed out"⟩ }
    let options : Options := { path := "greeting.bin", bufferSize := 0 }
    let first := schema.read none { options with bufferSize := 1 } fun _ _ =>
      .ok { behaviour with portion := fun _ _ => 1 }
    let second := schema.read none { options with bufferSize := 4096 } fun _ _ => .ok behaviour
    first.journal.calls = second.journal.calls ∧
      first.journal.fields = second.journal.fields ∧
      first.journal.openings = second.journal.openings ∧
      SameResult first.result second.result := by
  refine Schema.read_bufferSize _ ?_ none _ 1 4096 fun _ _ => ?_
  · exact ⟨trivial, trivial, ⟨trivial, ⟨trivial, trivial, trivial⟩, trivial⟩,
      ⟨fun context => (Decoding.stops_readInt context.order .u16).bind fun _ => trivial, trivial,
        trivial⟩, trivial⟩
  · exact ⟨fun _ _ _ => Nat.one_pos, fun _ _ hasked => hasked, rfl, rfl⟩

end ByteLayout
