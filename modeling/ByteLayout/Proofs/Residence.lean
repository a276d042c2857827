import ByteLayout.Proofs.Filling
import ByteLayout.Proofs.ReadBack
import ByteLayout.Proofs.Reading
import ByteLayout.Proofs.StreamFaults

/-!
# How many bytes are there at once

A fill adds at most one chunk, and it is asked for only while fewer bytes are there than are waited
for. So a stream that never waits for more than a chunk, and takes what it has waited for, has less
than a chunk left each time, and less than two in between (`ReadStream.Contained`). How many bytes
are there after a fill is what the event of the fill tells (`fillOnce_logged`).

The fields of a layout are **modest** (`Question.Modest`): numbers are fetched whole, and they are
small; texts, whose length comes from the source, are read in portions.

**Step** (`Stage.answer_slim`). A modest question leaves less than a chunk unread.

**Theorem (`Schema.read_sparing`).** A stream asks its source no more often than it must, and never
behind its end; and whatever a source declares, less than a chunk is unread between the fields of a
layout without custom ones, and less than two chunks at any time.
-/

namespace ByteLayout

/-- A source gives at most what is asked for. -/
theorem Source.length_read_le {source : Source} {asked : Nat} {portion : List UInt8}
    (h : (source.read asked).2 = .ok portion) : portion.length ≤ asked := by
  obtain ⟨behaviour, rest, given, reads⟩ := source
  unfold Source.read at h
  dsimp only at h
  split at h
  · cases h
  · obtain rfl := Except.ok.inj h
    exact Nat.le_trans (List.length_take_le _ _) (Nat.min_le_left _ _)

namespace Event

/-- Whether an event tells of no more than `most` bytes that are there. -/
def Within (most : Nat) : Event → Prop
  | trace (.filled _ _ resident) => resident ≤ most
  | _ => True

theorem Within.mono {most more : Nat} {event : Event} (h : event.Within most) (hle : most ≤ more) :
    event.Within more := by
  unfold Within at h ⊢
  split
  · exact Nat.le_trans h hle
  · trivial

/-- What a pass writes down itself tells of no bytes. -/
theorem Own.within {event : Event} (h : event.Own) (most : Nat) : event.Within most := by
  unfold Own at h
  unfold Within
  split
  · cases h
  · trivial

end Event

namespace ReadStream

variable {α : Type} {stream : ReadStream} {chunk count : Nat}

/-! ## Fills -/

/-- **What comes in is logged**: a fill brings nothing and tells of no bytes, or it brings at most a
chunk and tells how many bytes are there then. -/
theorem fillOnce_logged (stream : ReadStream) :
    (stream.fillOnce.stream.available = stream.available ∧
      ∀ event ∈ stream.fillOnce.events, event.Within 0) ∨
    ∃ bytes, 0 < bytes ∧ bytes ≤ stream.chunk ∧
      stream.fillOnce.stream.available = stream.available + bytes ∧
      stream.fillOnce.events =
        [.trace (.filled stream.path bytes stream.fillOnce.stream.available)] := by
  rcases fillOnce_cases stream with ⟨_, -, hfill⟩ | ⟨-, hfill⟩ | ⟨byte, rest, hread, hfill⟩
  · rw [hfill]
    exact .inl ⟨rfl, List.forall_mem_nil _⟩
  · rw [hfill]
    exact .inl ⟨rfl, List.forall_mem_singleton.mpr trivial⟩
  · rw [hfill]
    exact .inr ⟨rest.length + 1, Nat.succ_pos _, Source.length_read_le hread, rfl, rfl⟩

theorem fillOnce_grows (stream : ReadStream) :
    stream.fillOnce.stream.available ≤ stream.available + stream.chunk ∧
      ∀ event ∈ stream.fillOnce.events, event.Within (stream.available + stream.chunk) := by
  rcases fillOnce_logged stream with ⟨hsame, hevents⟩ | ⟨bytes, -, hbytes, hmore, hevents⟩
  · rw [hsame]
    exact ⟨Nat.le_add_right _ _, fun event hevent =>
      (hevents event hevent).mono (Nat.zero_le _)⟩
  · have hgrown : stream.fillOnce.stream.available ≤ stream.available + stream.chunk := by omega
    rw [hevents]
    exact ⟨hgrown, List.forall_mem_singleton.mpr hgrown⟩

/-! ## Streams that wait for no more than a chunk -/

/-- Each fill came when fewer than `count` bytes were there. -/
theorem Asks.filled_lt {times : Nat} (h : stream.Asks count times)
    (hthere : stream.available < stream.chunk) {earlier : Nat} (hearlier : earlier ≤ times) :
    (stream.filled earlier).available < count + stream.chunk := by
  cases earlier with
  | zero =>
    show stream.available < count + stream.chunk
    omega
  | succ earlier =>
    have hshort := (h.wanted earlier hearlier).short
    have hgrown := (fillOnce_grows (stream.filled earlier)).1
    rw [chunk_filled] at hgrown
    rw [filled_succ]
    omega

theorem Asks.within {times : Nat} (h : stream.Asks count times) :
    ∀ event ∈ (stream.await count).events, event.Within (count + stream.chunk - 1) := by
  rw [h.events]
  intro event hevent
  obtain ⟨earlier, hearlier, hmem⟩ := List.mem_flatMap.mp hevent
  have hshort := (h.wanted earlier (List.mem_range.mp hearlier)).short
  have hwithin := (fillOnce_grows (stream.filled earlier)).2 event hmem
  rw [chunk_filled] at hwithin
  exact hwithin.mono (by omega)

/-- Where waiting fails, the stream was over before, or fewer than `count` bytes are there. -/
theorem Asks.available_of_error {times : Nat} (h : stream.Asks count times)
    (hthere : stream.available < stream.chunk) (hcount : count ≤ stream.chunk) {error : Error}
    (herror : (stream.await count).result = .error error) :
    (stream.await count).stream.available < stream.chunk := by
  rw [h.later]
  by_cases hlive : stream.state.isOver = false
  · have hshort : ¬count ≤ (stream.filled times).available := by
      intro henough
      cases herror.symm.trans ((h.result hlive).mpr henough)
    omega
  · cases times with
    | zero => exact hthere
    | succ times => exact absurd (h.wanted 0 (Nat.succ_pos times)).live hlive

/-- What an operation leaves: less than a chunk is there, and less than two were on the way. -/
structure Contained (chunk : Nat) (outcome : Outcome ReadStream α) : Prop where
  size : outcome.stream.chunk = chunk
  available : outcome.stream.available < chunk
  events : ∀ event ∈ outcome.events, event.Within (2 * chunk - 1)

theorem fetch_contained (hsize : stream.chunk = chunk) (hthere : stream.available < chunk)
    (hcount : count ≤ chunk) : Contained chunk (stream.fetch count) := by
  subst hsize
  obtain ⟨times, hasks⟩ := await_asks stream count
  have hchunk := chunk_await stream count
  have hevents : ∀ event ∈ (stream.await count).events, event.Within (2 * stream.chunk - 1) :=
    fun event hevent => (hasks.within event hevent).mono (by omega)
  unfold fetch Outcome.bind
  cases hawait : (stream.await count).result with
  | error error => exact ⟨hchunk, hasks.available_of_error hthere hcount hawait, hevents⟩
  | ok _ =>
    -- what comes in beyond the bytes that are taken is less than the last chunk
    have hbound := hasks.filled_lt hthere (Nat.le_refl times)
    rw [← hasks.later] at hbound
    have henough := available_of_await hawait
    unfold take
    dsimp only
    rw [if_neg (Nat.not_lt.mpr henough)]
    refine ⟨hchunk, ?_, ?_⟩
    · show (stream.await count).stream.available - count < stream.chunk
      omega
    · rw [List.append_nil]
      exact hevents

/-- Portions are fetched one after the other. -/
theorem collect_contained {stream : ReadStream} (hsize : stream.chunk = chunk)
    (hthere : stream.available < chunk) (count : Nat) (before : Array UInt8) {events : List Event}
    (hevents : ∀ event ∈ events, event.Within (2 * chunk - 1)) :
    Contained chunk (stream.collect count before events) := by
  have hreverse : ∀ {events : List Event}, (∀ event ∈ events, event.Within (2 * chunk - 1)) →
      ∀ event ∈ events.reverse, event.Within (2 * chunk - 1) :=
    fun h event hevent => h event (List.mem_reverse.mp hevent)
  rw [collect]
  by_cases hzero : count = 0
  · rw [if_pos hzero]
    exact ⟨hsize, hthere, hreverse hevents⟩
  rw [if_neg hzero]
  have hportion : max 1 (min count stream.chunk) ≤ chunk := by omega
  have hfetch := fetch_contained hsize hthere hportion
  have hmore := List.forall_mem_append.mpr ⟨hreverse hfetch.events, hevents⟩
  dsimp only
  split
  · exact ⟨hfetch.size, hfetch.available, hreverse hmore⟩
  · exact collect_contained hfetch.size hfetch.available _ _ hmore
termination_by count
decreasing_by omega

theorem readBytes_contained (hsize : stream.chunk = chunk) (hthere : stream.available < chunk)
    (count : Nat) : Contained chunk (stream.readBytes count) :=
  collect_contained hsize hthere count #[] (List.forall_mem_nil _)

/-! ## What is asked of a source -/

/-- How a stream asks its source. -/
structure Sparing (stream : ReadStream) : Prop where
  /-- Waiting asks no more often than it must, each time for exactly one chunk, -/
  asks : ∀ count, ∃ times, stream.Asks count times ∧ (stream.await count).stream.source =
    (fun source => (source.read stream.chunk).1)^[times] stream.source
  /-- and not at all for bytes that are there. -/
  there : ∀ count, stream.state.isOver = false → count ≤ stream.available →
    stream.await count = ⟨.ok (), stream, []⟩
  /-- Behind its end the source is not asked again: behind any other the same would happen. -/
  ended : stream.complete = true → ∀ later source,
    ReadOperation.runAll (stream.behind source) later =
      (ReadOperation.runAll stream later).map (·.behind source)
  /-- If less than a chunk is there and no more than one is waited for, less than two are there
  after each fill. -/
  peak : stream.available < stream.chunk → ∀ count times, count ≤ stream.chunk →
    stream.Asks count times → ∀ earlier ≤ times,
      (stream.filled earlier).available ≤ 2 * stream.chunk - 1
  /-- The bytes that a chunk brings are there afterwards, and the log tells how many there are. -/
  logged : stream.fillOnce.stream.available = stream.available ∨
    ∃ bytes, bytes ≤ stream.chunk ∧
      stream.fillOnce.stream.available = stream.available + bytes ∧
      stream.fillOnce.events =
        [.trace (.filled stream.path bytes stream.fillOnce.stream.available)]

theorem sparing (stream : ReadStream) : stream.Sparing where
  asks count := by
    obtain ⟨times, hasks⟩ := await_asks stream count
    exact ⟨times, hasks, by rw [hasks.later, source_filled]⟩
  there _ hlive havailable := await_of_available hlive havailable
  ended hcomplete later source := ReadOperation.runAll_behind (.inr hcomplete) source later
  peak hthere count times hcount hasks earlier hearlier := by
    have hbound := hasks.filled_lt hthere hearlier
    omega
  logged := by
    rcases fillOnce_logged stream with ⟨hsame, -⟩ | ⟨bytes, -, hbytes, hmore, hevents⟩
    · exact .inl hsame
    · exact .inr ⟨bytes, hbytes, hmore, hevents⟩

end ReadStream

/-- Whether all questions of a dialogue are allowed, whatever the replies. -/
def Dialogue.Only {Question α : Type} {Reply : Question → Type} (allowed : Question → Prop) :
    Dialogue Reply α → Prop
  | .done _ => True
  | .ask question next => allowed question ∧ ∀ reply, Only allowed (next reply)

theorem Dialogue.Only.andThen {Question ε α β : Type} {Reply : Question → Type}
    {allowed : Question → Prop} {f : α → Dialogue Reply (Except ε β)}
    (hf : ∀ a, (f a).Only allowed) : ∀ {dialogue : Dialogue Reply (Except ε α)},
      dialogue.Only allowed → (dialogue.andThen f).Only allowed
  | .done (.ok a), _ => hf a
  | .done (.error _), _ => trivial
  | .ask _ _, ⟨hquestion, hnext⟩ => ⟨hquestion, fun reply => .andThen hf (hnext reply)⟩

namespace Read

/-! ## Modest plans -/

/-- Whether a question asks for a few bytes at once, or for many in portions. -/
def Question.Modest : Question → Prop
  | .record event => event.Own
  | .await _ => False
  | .fetch count => count ≤ 8
  | .field _ _ | .openFile _ | .closeFile _ | .read _ | .position => True

/-- Whether a plan asks modest questions only. -/
def Plan.Modest {α : Type} (plan : Plan α) : Prop := Dialogue.Only Question.Modest plan

theorem Plan.modest_closed : Closed fun _ plan => plan.Modest where
  done _ := trivial
  bind hplan hf := Dialogue.Only.andThen hf hplan
  event hown := ⟨hown, fun _ => trivial⟩
  field _ _ := ⟨trivial, fun _ => trivial⟩
  fetch hcount := ⟨hcount, fun _ => trivial⟩
  read _ := ⟨trivial, fun _ => trivial⟩

theorem Pass.modest_closed (pass : Pass) :
    pass.Closed (fun _ plan => plan.Modest) (fun _ => True) Kind.BuiltIn where
  toClosed := Plan.modest_closed
  withOrder _ _ := trivial
  inField _ _ := trivial
  item _ _ := trivial
  enterDir _ _ := trivial
  file relative record _ _ hcontent :=
    pass.inFile_closed Plan.modest_closed (fun _ => ⟨trivial, fun _ => trivial⟩)
      (fun _ => ⟨trivial, fun _ => trivial⟩) relative _ record
      fun inner record => hcontent inner record trivial
  decode hcodec _ _ := absurd hcodec id

namespace Stage

variable {α : Type} {setup : Setup} {stage : Stage}

/-! ## Slim stages -/

/-- A stage at which less than a chunk is unread, and less than two were there at any time. -/
structure Slim (chunk : Nat) (stage : Stage) : Prop where
  current : ∀ stream ∈ stage.current, stream.chunk = chunk ∧ stream.available < chunk
  journal : ∀ event ∈ stage.journal, event.Within (2 * chunk - 1)

variable {chunk : Nat}

theorem Slim.log (h : stage.Slim chunk) {events : List Event}
    (hevents : ∀ event ∈ events, event.Within (2 * chunk - 1)) : (stage.log events).Slim chunk := by
  refine ⟨h.current, fun event hevent => ?_⟩
  rcases Journal.mem_append.mp hevent with hold | hnew
  · exact h.journal event hold
  · exact hevents event hnew

theorem Slim.onStream (h : stage.Slim chunk) {operation : ReadStream → Outcome ReadStream α}
    (hoperation : ∀ stream : ReadStream, stream.chunk = chunk → stream.available < chunk →
      ReadStream.Contained chunk (operation stream)) :
    (stage.onStream operation).2.Slim chunk := by
  obtain ⟨journal, streams, current⟩ := stage
  cases current with
  | none => exact ⟨nofun, h.journal⟩
  | some stream =>
    obtain ⟨hsize, hthere⟩ := h.current stream rfl
    have hcontained := hoperation stream hsize hthere
    refine ⟨fun later hlater => ?_, fun event hevent => ?_⟩
    · obtain rfl := Option.some.inj hlater
      exact ⟨hcontained.size, hcontained.available⟩
    · rcases Journal.mem_append.mp hevent with hold | hnew
      · exact h.journal event hold
      · exact hcontained.events event hnew

theorem Slim.openStream (h : stage.Slim setup.chunk) (hchunk : 8 ≤ setup.chunk) (path : String) :
    (stage.openStream setup path).2.Slim setup.chunk := by
  unfold Stage.openStream
  cases setup.opener stage.openedPaths path with
  | error error => exact h
  | ok behaviour =>
    have hevents : ∀ event ∈ [Event.opened path, .trace (.readReady path setup.chunk)],
        event.Within (2 * setup.chunk - 1) := by
      simp [Event.Within]
    refine ⟨fun stream hstream => ?_, (h.log hevents).journal⟩
    obtain rfl := Option.some.inj hstream
    exact ⟨Nat.max_eq_left (by omega), show 0 < setup.chunk by omega⟩

theorem Slim.closeStream (h : stage.Slim chunk) (path : String) :
    (stage.closeStream path).Slim chunk := by
  obtain ⟨journal, streams, current⟩ := stage
  cases current with
  | none => exact h
  | some stream =>
    refine ⟨nofun, fun event hevent => ?_⟩
    rcases Journal.mem_append.mp hevent with hold | hnew
    · rcases Array.mem_push.mp hold with hold | rfl
      · exact h.journal event hold
      · trivial
    · obtain rfl := List.mem_singleton.mp hnew
      trivial

/-- **Step: a modest question leaves less than a chunk unread.** -/
theorem answer_slim (hchunk : 8 ≤ setup.chunk) (h : stage.Slim setup.chunk) {question : Question}
    (hmodest : question.Modest) : (stage.answer setup question).2.Slim setup.chunk := by
  cases question with
  | record event => exact h.log (List.forall_mem_singleton.mpr (hmodest.within _))
  | field path kind => exact h.log (List.forall_mem_singleton.mpr trivial)
  | openFile path => exact h.openStream hchunk path
  | closeFile path => exact h.closeStream path
  | await count => exact absurd hmodest id
  | fetch count =>
    have hcount : count ≤ 8 := hmodest
    exact h.onStream fun stream hsize hthere =>
      ReadStream.fetch_contained hsize hthere (Nat.le_trans hcount hchunk)
  | read count =>
    exact h.onStream fun stream hsize hthere => ReadStream.readBytes_contained hsize hthere count
  | position => exact h

/-- The stages of an answered plan: before each question, and at the end. -/
def course (setup : Setup) (stage : Stage) : Dialogue Question.Reply α → List Stage
  | .done _ => [stage]
  | .ask question next =>
    match stage.answer setup question with
    | (reply, later) => stage :: course setup later (next reply)

/-- **Run: modest questions keep a stage slim**, from the first to the last. -/
theorem course_slim (hchunk : 8 ≤ setup.chunk) {dialogue : Dialogue Question.Reply α}
    (hmodest : dialogue.Only Question.Modest) (h : stage.Slim setup.chunk) :
    (∀ later ∈ stage.course setup dialogue, later.Slim setup.chunk) ∧
      (stage.answerAll setup dialogue).2.Slim setup.chunk := by
  induction dialogue generalizing stage with
  | done result => exact ⟨List.forall_mem_singleton.mpr h, h⟩
  | ask question next ih =>
    obtain ⟨hcourse, hlast⟩ := ih _ (hmodest.2 _) (answer_slim hchunk h hmodest.1)
    exact ⟨List.forall_mem_cons.mpr ⟨h, hcourse⟩, hlast⟩

end Stage

end Read

open Read

theorem Options.warnings_within (options : Options) (side : Side) (most : Nat) :
    ∀ event ∈ options.warnings side, event.Within most := by
  unfold warnings
  split
  · exact List.forall_mem_singleton.mpr trivial
  · exact List.forall_mem_nil _

/-- **A read pass asks for no more than it needs.** Every stream asks its source no more often than
it must, each time for one chunk, and never behind its end. So in a pass without custom fields,
whatever its sources declare, less than a chunk is unread between any two questions, and less than
two chunks are there after any fill. -/
theorem Schema.read_sparing (schema : Schema) (hroot : schema.root.Every Kind.BuiltIn)
    (transform : Option Transform) (options : Options) (opener : SourceOpener) :
    let setup : Setup :=
      { opener, chunk := options.clamped.bufferSize, debug := options.debug }
    let before := Stage.empty.log (options.warnings .read)
    (∀ stream : ReadStream, stream.Sparing) ∧
      (∀ stage ∈ before.course setup (schema.readPlan transform options),
        ∀ stream ∈ stage.current, stream.chunk = setup.chunk ∧ stream.available < setup.chunk) ∧
      ∀ path bytes resident,
        .trace (.filled path bytes resident) ∈ (schema.read transform options opener).journal →
          resident ≤ 2 * setup.chunk - 1 := by
  intro setup before
  have hchunk : 8 ≤ setup.chunk := by
    show 8 ≤ max options.bufferSize Options.minBufferSize
    unfold Options.minBufferSize
    omega
  have hmodest : (schema.readPlan transform options).Modest :=
    schema.readPlan_closed (P := fun _ plan => plan.Modest) Pass.modest_closed hroot transform
      options
  have hempty : Stage.empty.Slim setup.chunk := ⟨nofun, by simp [Stage.empty]⟩
  have hbefore : before.Slim setup.chunk := hempty.log (options.warnings_within .read _)
  obtain ⟨hcourse, hlast⟩ := Stage.course_slim hchunk hmodest hbefore
  refine ⟨ReadStream.sparing, fun stage hstage => (hcourse stage hstage).current, ?_⟩
  intro path bytes resident hfilled
  have hjournal := Plan.journal_answer (schema.readPlan transform options) setup
    (options.warnings .read)
  exact hlast.journal _ (hjournal ▸ hfilled)

/-- A text behind the number of its bytes. -/
def boast : Schema :=
  ⟨.ofKind (.order .big [((Node.ofKind (.int .u64)).named "text").withString
    (.ofKind (.text .utf8))]), .root, rfl⟩

/-- The source declares as many bytes as it can, and there are three. -/
def boastSource : SourceOpener :=
  fun _ _ => .ok (.ofBytes (List.replicate 8 255 ++ [1, 2, 3]))

/-- The smallest buffer. -/
def smallBuffer : Options := { path := "out", bufferSize := 16 }

theorem Schema.read_sparing_boast :
    boast.root.Every Kind.BuiltIn ∧
      (∀ stage ∈ Stage.empty.course ⟨boastSource, 16, false⟩ (boast.readPlan none smallBuffer),
        ∀ stream ∈ stage.current, stream.chunk = 16 ∧ stream.available < 16) ∧
      ∀ path bytes resident,
        .trace (.filled path bytes resident) ∈ (boast.read none smallBuffer boastSource).journal →
          resident ≤ 31 := by
  have hbuiltIn : boast.root.Every Kind.BuiltIn :=
    ⟨trivial, trivial, ⟨trivial, ⟨trivial, trivial, trivial⟩, trivial⟩, trivial⟩
  obtain ⟨-, hcourse, hresident⟩ := Schema.read_sparing boast hbuiltIn none smallBuffer boastSource
  exact ⟨hbuiltIn, hcourse, hresident⟩

end ByteLayout
