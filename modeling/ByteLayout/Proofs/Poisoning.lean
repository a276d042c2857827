import ByteLayout.Proofs.Enclosed
import ByteLayout.Proofs.ReadBack
import ByteLayout.Proofs.Stopping

/-!
# After a failure of a source

When a read from its source fails, a stream is errored for good. What is asked of it from then on
gets a reply that the source has no part in (`Question.starved`): no byte, and for most questions an
error. A field other than a custom one cannot do without bytes, so it ends the pass. A decoder may
carry on, and if nothing but custom fields follow in its file, the pass may end well all the same.

**Theorem (`Stage.answerAll_starved`).** A plan inside a file whose stream is errored ends as if it
were starved, whatever the plan is.

**Theorem (`Schema.read_failed`).** A pass ends with an error if it reaches a field other than a
custom one after a failure, or if the failure comes within a tree whose decoders stop at the first.
-/

namespace ByteLayout

namespace ReadStream

variable {stream : ReadStream}

/-! ## Errored streams -/

theorem await_of_over (h : stream.state.isOver = true) (count : Nat) :
    stream.await count = ⟨.error (.poisoned stream.path), stream, []⟩ := by
  unfold await
  rw [fillUntil, if_pos h]
  rfl

theorem fetch_of_over (h : stream.state.isOver = true) (count : Nat) :
    stream.fetch count = ⟨.error (.poisoned stream.path), stream, []⟩ := by
  unfold fetch
  rw [await_of_over h]
  rfl

/-- What a stream that is over gives of so many bytes: nothing, which is all if there are none. -/
def nothingOf (path : String) (count : Nat) : Except Error (List UInt8) :=
  if count = 0 then .ok [] else .error (.poisoned path)

theorem readBytes_of_over (h : stream.state.isOver = true) (count : Nat) :
    stream.readBytes count = ⟨nothingOf stream.path count, stream, []⟩ := by
  unfold readBytes nothingOf
  rw [collect]
  by_cases hzero : count = 0
  · rw [if_pos hzero, if_pos hzero]
    rfl
  · rw [if_neg hzero, if_neg hzero]
    dsimp only
    rw [fetch_of_over h]
    rfl

theorem no_bytes_of_over (h : stream.state.isOver = true) {count : Nat} {bytes : List UInt8}
    (hbytes : (stream.fetch count).result = .ok bytes ∨
      (stream.readBytes count).result = .ok bytes) : bytes = [] := by
  rcases hbytes with hfetch | hread
  · rw [fetch_of_over h] at hfetch
    cases hfetch
  · rw [readBytes_of_over h] at hread
    change nothingOf stream.path count = .ok bytes at hread
    unfold nothingOf at hread
    by_cases hzero : count = 0
    · rw [if_pos hzero] at hread
      exact (Except.ok.inj hread).symm
    · rw [if_neg hzero] at hread
      cases hread

end ReadStream

namespace Read

/-! ## Starving -/

/-- The reply to a question inside a file whose stream is errored, at some offset. -/
def Question.starved (path : String) (offset : Nat) : (question : Question) → question.Reply
  | .record _ => ()
  | .field _ _ => ()
  | .openFile _ => .error (.poisoned path)
  | .closeFile _ => ()
  | .await _ => .error (.poisoned path)
  | .fetch _ => .error (.poisoned path)
  | .read count => ReadStream.nothingOf path count
  | .position => offset

/-- What a dialogue comes to with starved replies only. -/
def starved {α : Type} (path : String) (offset : Nat) : Dialogue Question.Reply α → α
  | .done result => result
  | .ask question next => starved path offset (next (question.starved path offset))

namespace Stage

variable {α : Type} {setup : Setup} {stage : Stage} {stream : ReadStream}

theorem onStream_of_unmoved (operation : ReadStream → Outcome ReadStream α) (journal : Journal)
    (streams : Array ReadStream) {result : Except Error α}
    (h : operation stream = ⟨result, stream, []⟩) :
    onStream ⟨journal, streams, some stream⟩ operation =
      (result, ⟨journal ++ ([] : List Event), streams, some stream⟩) := by
  unfold onStream
  dsimp only
  rw [h]

/-- A question is answered without the source, and the stream stays what it is. -/
theorem answer_starved (setup : Setup) (hcurrent : stage.current = some stream)
    (h : stream.state.isOver = true) {question : Question} (hinside : question.Inside) :
    ∃ events : List Event,
      stage.answer setup question = (question.starved stream.path stream.position,
        ⟨stage.journal ++ events, stage.streams, some stream⟩) := by
  obtain ⟨journal, streams, current⟩ := stage
  obtain rfl : current = some stream := hcurrent
  cases question with
  | record event => exact ⟨[event], rfl⟩
  | field path kind =>
    exact ⟨[.trace (.field .read setup.debug path kind stream.position)], rfl⟩
  | openFile path => cases hinside
  | closeFile path => cases hinside
  | await count =>
    exact ⟨[], onStream_of_unmoved (·.await count) _ _ (stream.await_of_over h count)⟩
  | fetch count =>
    exact ⟨[], onStream_of_unmoved (·.fetch count) _ _ (stream.fetch_of_over h count)⟩
  | read count =>
    exact ⟨[], onStream_of_unmoved (·.readBytes count) _ _ (stream.readBytes_of_over h count)⟩
  | position => exact ⟨[], rfl⟩

/-- **A plan starves inside a file whose stream is over.** -/
theorem answerAll_starved (hcurrent : stage.current = some stream)
    (h : stream.state.isOver = true) : ∀ {dialogue : Dialogue Question.Reply α}, Inside dialogue →
      ∃ events : List Event, stage.answerAll setup dialogue =
        (starved stream.path stream.position dialogue,
          ⟨stage.journal ++ events, stage.streams, some stream⟩) := by
  intro dialogue hinside
  induction dialogue generalizing stage with
  | done result =>
    obtain ⟨journal, streams, current⟩ := stage
    obtain rfl : current = some stream := hcurrent
    exact ⟨[], rfl⟩
  | ask question next ih =>
    obtain ⟨events, hanswer⟩ := answer_starved setup hcurrent h hinside.1
    let later : Stage := ⟨stage.journal ++ events, stage.streams, some stream⟩
    have hlater : later.current = some stream := rfl
    obtain ⟨more, hrest⟩ := ih (question.starved stream.path stream.position) hlater (hinside.2 _)
    refine ⟨events ++ more, ?_⟩
    rw [answerAll, hanswer]
    dsimp only
    rw [hrest, show later.journal ++ more = stage.journal ++ (events ++ more) from
      Array.ext' (by simp [later])]
    rfl

/-- **A field does not do without bytes.** -/
theorem number_starved (setup : Setup) (hcurrent : stage.current = some stream)
    (h : stream.state.isOver = true) (scope : Scope) (label : String) (width : Nat)
    (f : ByteOrder → List UInt8 → Plan α) : ∃ error later,
      stage.follow setup (do
        let order ← .ofExcept (scope.fieldOrder label)
        .field scope.trail label
        let bytes ← .fetch width
        f order bytes) = (.error error, later) := by
  obtain ⟨journal, streams, current⟩ := stage
  obtain rfl : current = some stream := hcurrent
  cases scope.fieldOrder label with
  | error error => exact ⟨error, _, rfl⟩
  | ok order =>
    have hfetch : ∀ journal, follow setup ⟨journal, streams, some stream⟩ (.fetch width) = _ :=
      fun journal => onStream_of_unmoved (·.fetch width) journal streams
        (stream.fetch_of_over h width)
    have hrest : ∀ journal, ∃ later, follow setup ⟨journal, streams, some stream⟩
        (.fetch width >>= f order) = (.error (.poisoned stream.path), later) := by
      intro journal
      rw [follow_bind, hfetch]
      exact ⟨_, rfl⟩
    obtain ⟨later, hlater⟩ := hrest (journal ++
      [Event.trace (.field .read setup.debug scope.trail label stream.position)])
    exact ⟨_, later, hlater⟩

end Stage

namespace Pass

variable {setup : Setup} {stage : Stage} {stream : ReadStream}

theorem integer_starved (setup : Setup) (hcurrent : stage.current = some stream)
    (h : stream.state.isOver = true) (scope : Scope) (kind : IntKind) :
    ∃ error later, stage.follow setup (integer kind scope) = (.error error, later) :=
  Stage.number_starved setup hcurrent h scope kind.label kind.width _

/-- Whatever goes on after an integer does not come to it. -/
theorem after_integer_starved {α : Type} (setup : Setup) (hcurrent : stage.current = some stream)
    (h : stream.state.isOver = true) (scope : Scope) (kind : IntKind) (f : Int → Plan α) :
    ∃ error later, stage.follow setup (integer kind scope >>= f) = (.error error, later) := by
  obtain ⟨error, later, hinteger⟩ := integer_starved setup hcurrent h scope kind
  rw [Stage.follow_bind, hinteger]
  exact ⟨error, later, rfl⟩

end Pass

end Read

/-- Whether a node is a field of the engine's own: an integer, which may announce a text or a
sequence, or a float. -/
def Kind.isNumber : Kind → Bool
  | .int _ | .float _ => true
  | _ => false

namespace Read

/-- **A field other than a custom one ends the pass** if the stream is over. -/
theorem Pass.walk_starved (pass : Pass) (setup : Setup) {stage : Stage} {stream : ReadStream}
    (hcurrent : stage.current = some stream) (h : stream.state.isOver = true) {node : Node}
    (hnode : node.kind.isNumber = true) (site : Site) (scope : Scope)
    (transform : Option Transform) (record : Fields Value) : ∃ error later,
      stage.follow setup (pass.walk site scope transform record node) = (.error error, later) := by
  obtain ⟨kind, name, default, payload⟩ := node
  cases kind with
  | int kind =>
    cases payload with
    | none =>
      rw [walk]
      exact after_integer_starved setup hcurrent h _ kind _
    | text text =>
      rw [walk]
      exact after_integer_starved setup hcurrent h _ kind _
    | sequence elements =>
      rw [walk]
      exact after_integer_starved setup hcurrent h _ kind _
  | float kind =>
    rw [walk]
    exact Stage.number_starved setup hcurrent h _ kind.label kind.width _
  | _ => cases hnode

/-! ## Plans that stop -/

theorem exists_ok_of_failure? {α : Type} {reply : Except Error α} (h : failure? reply = none) :
    ∃ a, reply = .ok a := by
  cases reply with
  | ok a => exact ⟨a, rfl⟩
  | error error => cases h

namespace Stage

variable {α β : Type} {setup : Setup} {stage later : Stage}

/-- A stage at which no source has failed: the files put away were closed, and the open one is not
over. -/
structure Unfailed (stage : Stage) : Prop where
  streams : ∀ stream ∈ stage.streams.toList, stream.state = .closed
  current : ∀ stream ∈ stage.current, stream.state.isOver = false

theorem unfailed_empty (events : List Event) : (Stage.empty.log events).Unfailed :=
  ⟨List.forall_mem_nil _, nofun⟩

theorem Unfailed.onStream (h : stage.Unfailed)
    {operation : ReadStream → Outcome ReadStream α}
    (hoperation : ∀ stream : ReadStream, stream.Endures (operation stream)) {a : α}
    (hok : (stage.onStream operation).1 = .ok a) : (stage.onStream operation).2.Unfailed := by
  obtain ⟨journal, streams, current⟩ := stage
  cases current with
  | none => exact h
  | some stream =>
    refine ⟨h.streams, fun moved hmoved => ?_⟩
    obtain rfl := Option.some.inj hmoved
    exact ((hoperation stream).isOver a hok).trans (h.current stream rfl)

theorem onStream_failed {operation : ReadStream → Outcome ReadStream α}
    (hoperation : ∀ stream : ReadStream, stream.Endures (operation stream)) {path : String}
    {cause : IoError} (h : failure? (stage.onStream operation).1 = some (.io path cause)) :
    ∃ stream, (stage.onStream operation).2.current = some stream ∧ stream.state = .errored := by
  obtain ⟨journal, streams, current⟩ := stage
  cases current with
  | none => cases h
  | some stream =>
    exact ⟨_, rfl, (hoperation stream).failed path cause (Plan.stops_reply h)⟩

/-- **A failure of a source makes its stream errored.** -/
theorem answer_failed (setup : Setup) {question : Question} (hinside : question.Inside)
    {path : String} {cause : IoError}
    (h : question.error? (stage.answer setup question).1 = some (.io path cause)) :
    ∃ stream, (stage.answer setup question).2.current = some stream ∧ stream.state = .errored := by
  cases question with
  | openFile path => cases hinside
  | await count => exact onStream_failed (fun stream => stream.await_endures count) h
  | fetch count => exact onStream_failed (fun stream => stream.fetch_endures count) h
  | read count => exact onStream_failed (fun stream => stream.readBytes_endures count) h
  | _ => cases h

theorem Unfailed.openStream (h : stage.Unfailed) (setup : Setup) (path : String) :
    (stage.openStream setup path).2.Unfailed := by
  unfold Stage.openStream
  cases setup.opener stage.openedPaths path with
  | error error => exact h
  | ok behaviour =>
    refine ⟨h.streams, fun stream hstream => ?_⟩
    obtain rfl := Option.some.inj hstream
    rfl

/-- What is not over ends closed. -/
theorem Unfailed.closeStream (h : stage.Unfailed) (path : String) :
    (stage.closeStream path).Unfailed := by
  obtain ⟨journal, streams, current⟩ := stage
  cases current with
  | none => exact h
  | some stream =>
    refine ⟨fun other hother => ?_, nofun⟩
    change other ∈ (streams.push stream.close.stream).toList at hother
    rw [Array.toList_push] at hother
    rcases List.mem_append.mp hother with hother | hother
    · exact h.streams other hother
    · have hlive := h.current stream rfl
      have hstate : stream.state ≠ .errored := by
        intro hstate
        rw [hstate] at hlive
        cases hlive
      rw [List.mem_singleton.mp hother]
      exact if_neg hstate

/-- A reply that is no error keeps a stage unfailed. -/
theorem Unfailed.answer (h : stage.Unfailed) (setup : Setup) {question : Question}
    (hreply : question.error? (stage.answer setup question).1 = none) :
    (stage.answer setup question).2.Unfailed := by
  cases question with
  | record event => exact ⟨h.streams, h.current⟩
  | field path kind => exact ⟨h.streams, h.current⟩
  | position => exact h
  | openFile path => exact h.openStream setup path
  | closeFile path => exact h.closeStream path
  | await count =>
    obtain ⟨a, ha⟩ := exists_ok_of_failure? hreply
    exact h.onStream (fun stream => stream.await_endures count) ha
  | fetch count =>
    obtain ⟨a, ha⟩ := exists_ok_of_failure? hreply
    exact h.onStream (fun stream => stream.fetch_endures count) ha
  | read count =>
    obtain ⟨a, ha⟩ := exists_ok_of_failure? hreply
    exact h.onStream (fun stream => stream.readBytes_endures count) ha

/-- **A plan that stops, if it ends well, has seen no failure.** -/
theorem Unfailed.follow (setup : Setup) {a : α} : ∀ {plan : Plan α} {stage : Stage},
    stage.Unfailed → plan.Stops → (stage.follow setup plan).1 = .ok a →
      (stage.follow setup plan).2.Unfailed
  | .done result, _, h, _, _ => h
  | .ask question next, stage, h, ⟨hgo, hstop⟩, hok => by
    change (Stage.follow setup (stage.answer setup question).2
      (next (stage.answer setup question).1)).1 = _ at hok
    cases hreply : question.error? (stage.answer setup question).1 with
    | none => exact (h.answer setup hreply).follow setup (hgo _ hreply) hok
    | some error =>
      obtain ⟨failure, -, hfailed, -, -⟩ := hstop _ _ error error hreply hreply (.refl error)
      rw [hfailed] at hok
      cases hok

end Stage

/-! ## Plans that close what they open -/

/-- Outside of files, no question but one opens any. -/
theorem Stage.current_answer {stage : Stage} (hcurrent : stage.current = none) (setup : Setup)
    {question : Question} (h : question.Inside) :
    (stage.answer setup question).2.current = none := by
  obtain ⟨journal, streams, current⟩ := stage
  obtain rfl : current = none := hcurrent
  cases question with
  | openFile path => cases h
  | closeFile path => cases h
  | _ => rfl

theorem Stage.abandon_of_none {stage : Stage} (h : stage.current = none) :
    stage.abandon = stage := by
  unfold abandon
  rw [h]

theorem Stage.current_answerAll {α : Type} {stage : Stage} (hcurrent : stage.current = none)
    (setup : Setup) {dialogue : Dialogue Question.Reply α} (h : Inside dialogue) :
    (stage.answerAll setup dialogue).2.current = none := by
  induction dialogue generalizing stage with
  | done result => exact hcurrent
  | ask question next ih => exact ih _ (current_answer hcurrent setup h.1) (h.2 _)

namespace Plan

variable {α β : Type}

/-- A plan that, if it begins outside of all files and ends well, ends there. -/
def Returns (plan : Plan α) : Prop := ∀ (setup : Setup) (stage : Stage) (a : α),
  stage.current = none → (stage.follow setup plan).1 = .ok a →
    (stage.follow setup plan).2.current = none

/-- A plan that, if it ends well, ends outside of all files, wherever it begins. -/
def Leaves (plan : Plan α) : Prop := ∀ (setup : Setup) (stage : Stage) (a : α),
  (stage.follow setup plan).1 = .ok a → (stage.follow setup plan).2.current = none

theorem returns_of_inside {plan : Plan α} (h : Inside plan) : plan.Returns :=
  fun setup _ _ hcurrent _ => Stage.current_answerAll hcurrent setup h

theorem Returns.bind {plan : Plan α} {f : α → Plan β} (h : plan.Returns)
    (hf : ∀ a, (f a).Returns) : (plan >>= f).Returns := by
  intro setup stage b hcurrent hok
  rw [Stage.follow_bind] at hok ⊢
  have hplan := h setup stage
  cases hfollow : stage.follow setup plan with | mk result later
  rw [hfollow] at hok hplan
  cases result with
  | error error => cases hok
  | ok a => exact hf a setup later b (hplan a hcurrent rfl) hok

/-- Only what comes last has to leave. -/
theorem leaves_bind (plan : Plan α) {f : α → Plan β} (hf : ∀ a, (f a).Leaves) :
    (plan >>= f).Leaves := by
  intro setup stage b hok
  rw [Stage.follow_bind] at hok ⊢
  cases hfollow : stage.follow setup plan with | mk result later
  rw [hfollow] at hok
  cases result with
  | error error => cases hok
  | ok a => exact hf a setup later b hok

theorem leaves_closeFile (path : String) (a : α) :
    (closeFile path >>= fun _ => Pure.pure a : Plan α).Leaves := by
  intro setup stage b _
  show (stage.closeStream path).current = none
  obtain ⟨journal, streams, current⟩ := stage
  cases current <;> rfl

theorem returns_closed : Closed fun _ plan => plan.Returns where
  done _ := returns_of_inside trivial
  bind hplan hf := hplan.bind hf
  event _ := returns_of_inside ⟨trivial, fun _ => trivial⟩
  field _ _ := returns_of_inside ⟨trivial, fun _ => trivial⟩
  fetch _ := returns_of_inside ⟨trivial, fun _ => trivial⟩
  read _ := returns_of_inside ⟨trivial, fun _ => trivial⟩

end Plan

/-- Files are closed at their ends, and nothing else opens one. -/
theorem Pass.returns_closed (pass : Pass) :
    pass.Closed (fun _ plan => plan.Returns) (fun _ => True) fun _ => True where
  toClosed := Plan.returns_closed
  withOrder _ _ := trivial
  inField _ _ := trivial
  item _ _ := trivial
  enterDir _ _ := trivial
  file {scope} relative record content _ _ := by
    have hleaves : (pass.inFile relative scope record content).Leaves :=
      Plan.leaves_bind _ fun _ => Plan.leaves_bind _ fun _ => Plan.leaves_bind _ fun _ =>
        Plan.leaves_bind _ fun _ => Plan.leaves_closeFile _ _
    exact fun setup stage a _ hok => hleaves setup stage a hok
  decode _ path context := Plan.returns_of_inside (Plan.inside_decode path _)

end Read

open Read

/-- Where a node fails, all fails. -/
theorem Schema.ReadReaches.result_eq {schema : Schema} {options : Options}
    {whole : Option Transform} {opener : SourceOpener} {stage later : Stage} {pass : Pass}
    {site : Site} {scope : Scope} {transform : Option Transform} {record : Fields Value}
    {node : Node} {error : Error}
    (h : schema.ReadReaches options whole opener stage pass site scope transform record node)
    (hwalk : stage.follow { opener, chunk := options.clamped.bufferSize, debug := options.debug }
      (pass.walk site scope transform record node) = (.error error, later)) :
    (schema.read whole options opener).result = .error error :=
  congrArg Report.result (Plan.answer_of_fails (h.fails hwalk))

/-- **After a failure of a source**, its stream is errored. An errored stream gives no byte. A plan
inside its file, a decoder included, ends as if it were starved, and the stream stays as it is. A
field other than a custom one that is reached then ends the pass with an error. So does a tree whose
decoders all stop at the first failure, if a source fails within it; and if all decoders do, a pass
that ends well has closed all its files, and none of their sources has failed. -/
theorem Schema.read_failed (schema : Schema) (options : Options) (whole : Option Transform)
    (opener : SourceOpener) :
    (∀ (setup : Setup) (stage : Stage) (question : Question) (path : String) (cause : IoError),
      question.Inside → question.error? (stage.answer setup question).1 = some (.io path cause) →
        ∃ stream, (stage.answer setup question).2.current = some stream ∧
          stream.state = .errored) ∧
    (∀ stream : ReadStream, stream.state = .errored → ∀ count bytes,
      (stream.fetch count).result = .ok bytes ∨ (stream.readBytes count).result = .ok bytes →
        bytes = []) ∧
    (∀ (setup : Setup) (stage : Stage) (stream : ReadStream), stage.current = some stream →
      stream.state = .errored → ∀ {α : Type} (plan : Plan α), Inside plan →
        ∃ events : List Event, stage.follow setup plan =
          (starved stream.path stream.position plan,
            ⟨stage.journal ++ events, stage.streams, some stream⟩)) ∧
    (∀ stage pass site scope transform record node stream,
      schema.ReadReaches options whole opener stage pass site scope transform record node →
      stage.current = some stream → stream.state = .errored → node.kind.isNumber = true →
        ∃ error, (schema.read whole options opener).result = .error error) ∧
    (∀ stage pass site scope transform record node,
      schema.ReadReaches options whole opener stage pass site scope transform record node →
      stage.Unfailed → node.Every Kind.Stopping →
      ¬(stage.follow
        { opener, chunk := options.clamped.bufferSize, debug := options.debug }
        (pass.walk site scope transform record node)).2.Unfailed →
        ∃ error, (schema.read whole options opener).result = .error error) ∧
    (schema.root.Every Kind.Stopping → ∀ record,
      (schema.read whole options opener).result = .ok record →
        ∀ stream ∈ (schema.read whole options opener).streams.toList, stream.state = .closed) := by
  refine ⟨?_, ?_, ?_, ?_, ?_, ?_⟩
  · intro setup stage question path cause hinside hfailed
    exact Stage.answer_failed setup hinside hfailed
  · intro stream hstate count bytes hbytes
    exact ReadStream.no_bytes_of_over (hstate ▸ rfl) hbytes
  · intro setup stage stream hcurrent hstate α plan hplan
    exact Stage.answerAll_starved hcurrent (hstate ▸ rfl) hplan
  · intro stage pass site scope transform record node stream hreaches hcurrent hstate hnode
    obtain ⟨error, later, hwalk⟩ := pass.walk_starved _ hcurrent (hstate ▸ rfl) hnode site scope
      transform record
    exact ⟨error, hreaches.result_eq hwalk⟩
  · intro stage pass site scope transform record node hreaches hunfailed hnode hfailed
    have hstops : (pass.walk site scope transform record node).Stops :=
      Pass.walk_closed pass.stops_closed site trivial transform record node hnode
    cases hwalk : stage.follow _ (pass.walk site scope transform record node) with
      | mk answer later
    cases answer with
    | ok kept => exact absurd (hunfailed.follow _ hstops (congrArg Prod.fst hwalk)) hfailed
    | error error => exact ⟨error, hreaches.result_eq hwalk⟩
  · intro hstopping record hok stream hstream
    let setup : Setup :=
      { opener, chunk := options.clamped.bufferSize, debug := options.debug }
    have hunfailed := (Stage.unfailed_empty (options.warnings .read)).follow setup
      (schema.readPlan_stops hstopping whole options) hok
    have hcurrent := schema.readPlan_closed Pass.returns_closed
      (schema.root.every_of_forall fun _ => trivial) whole options setup _ record rfl hok
    have hstreams : (schema.read whole options opener).streams = Stage.streams _ :=
      congrArg Stage.streams (Stage.abandon_of_none hcurrent)
    rw [hstreams] at hstream
    exact hunfailed.streams stream hstream

/-! ## A decoder that carries on -/

/-- A source that fails at its first read. -/
def goneSource : SourceBehaviour := { data := [], failure := some ⟨"Other", "disk gone"⟩ }

/-- A stream whose source failed at its first read. -/
def ReadStream.gone (chunk : Nat) (path : String) : ReadStream :=
  { create goneSource chunk path with state := .errored }

theorem ReadStream.fetch_gone (chunk : Nat) (path : String) :
    (create goneSource chunk path).fetch 1 =
      ⟨.error (.io path ⟨"Other", "disk gone"⟩), gone chunk path, []⟩ := by
  have hfill : (create goneSource chunk path).fillOnce =
      ⟨.error (.io path ⟨"Other", "disk gone"⟩), gone chunk path, []⟩ := rfl
  have hempty : ¬1 ≤ (create goneSource chunk path).available :=
    Nat.not_succ_le_zero 0
  have hopen : ¬(create goneSource chunk path).complete = true := Bool.false_ne_true
  unfold fetch await
  rw [fillUntil, if_neg (show ¬(create goneSource chunk path).state.isOver = true from
    Bool.false_ne_true), dif_neg hempty, dif_neg hopen]
  split
  · next error filled more heq =>
    rw [hfill] at heq
    cases heq
    rfl
  · next filled more heq =>
    rw [hfill] at heq
    cases heq

/-- A decoder that reads a byte, or makes do with nothing. -/
def tolerant : Codec where
  encode _ _ := pure ()
  decode _ := Decoding.orElse
    (do
      let n ← Decoding.readInt .big .u8
      return .int n)
    (pure .null)

/-- A field that may be missing. -/
def maybeField : Node := (Node.ofKind (.custom tolerant)).named "maybe"

namespace Read

/-- A decoder that carries on gets by without the byte. -/
theorem Plan.decode_tolerant (path : String) (context : CodecContext) :
    ∃ next : Except Error (List UInt8) → Plan Value,
      Plan.decode path (tolerant.decode context) = .ask (.fetch 1) next ∧
        ∀ error, next (.error error) = .done (.ok .null) :=
  ⟨_, rfl, fun _ => rfl⟩

/-- A stage with a file open whose source is about to fail. -/
def Stage.beforeGone (journal : Journal) (streams : Array ReadStream) (chunk : Nat)
    (path : String) : Stage := ⟨journal, streams, some (.create goneSource chunk path)⟩

/-- The stage after the failure. -/
def Stage.afterGone (journal : Journal) (streams : Array ReadStream) (chunk : Nat)
    (path : String) : Stage := ⟨journal ++ ([] : List Event), streams, some (.gone chunk path)⟩

theorem Stage.fetch_gone (journal : Journal) (streams : Array ReadStream) (chunk : Nat)
    (path : String) : (beforeGone journal streams chunk path).onStream (·.fetch 1) =
      (.error (.io path ⟨"Other", "disk gone"⟩), afterGone journal streams chunk path) := by
  unfold beforeGone afterGone onStream
  dsimp only
  rw [ReadStream.fetch_gone]

/-- The decoder makes do with nothing, and the stream is left errored. -/
theorem Stage.follow_tolerant (setup : Setup) (journal : Journal) (streams : Array ReadStream)
    (chunk : Nat) (path trail : String) (context : CodecContext) :
    (beforeGone journal streams chunk path).follow setup
      (.decode trail (tolerant.decode context)) =
        (.ok .null, afterGone journal streams chunk path) := by
  obtain ⟨next, hplan, hnext⟩ := Plan.decode_tolerant trail context
  rw [hplan]
  show follow setup ((beforeGone journal streams chunk path).onStream (·.fetch 1)).2
    (next ((beforeGone journal streams chunk path).onStream (·.fetch 1)).1) = _
  rw [fetch_gone, hnext]
  rfl

/-- The field is read as missing. -/
theorem Pass.custom_tolerant (pass : Pass) (setup : Setup) (journal : Journal)
    (streams : Array ReadStream) (chunk : Nat) (path : String) {scope : Scope}
    (hscope : scope.fieldOrder "CUSTOM" = .ok .big) (record : Fields Value) :
    ∃ later : Stage,
      (Stage.beforeGone journal streams chunk path).follow setup
        (pass.custom tolerant "CUSTOM" (some "maybe") scope none record) =
          (.ok (.null, Fields.insert record "maybe" .null), later) ∧
      later.current = some (.gone chunk path) := by
  let context := scope.codecContext .big pass.user record
  have hrest : ∀ journal, (Stage.beforeGone journal streams chunk path).follow setup
      (.decode scope.trail (tolerant.decode context) >>=
        fun value => pass.settle (some "maybe") scope none record value) =
          (.ok (.null, Fields.insert record "maybe" .null),
            Stage.afterGone journal streams chunk path) := by
    intro journal
    rw [Stage.follow_bind, Stage.follow_tolerant]
    rfl
  unfold custom
  rw [hscope]
  exact ⟨Stage.afterGone _ streams chunk path, hrest _, rfl⟩

/-- A byte cannot be read, and the stream is left errored. -/
theorem Pass.int_gone (pass : Pass) (setup : Setup) (journal : Journal)
    (streams : Array ReadStream) (chunk : Nat) (path : String) {scope : Scope} {order : ByteOrder}
    (hscope : scope.fieldOrder "U8" = .ok order) (name : Option String) (record : Fields Value) :
    ((Stage.beforeGone journal streams chunk path).follow setup
      (pass.int .u8 name scope none record)).2.current = some (.gone chunk path) := by
  have hfetch : ∀ journal, (Stage.beforeGone journal streams chunk path).follow setup
      (.fetch 1) = _ := fun journal => Stage.fetch_gone journal streams chunk path
  have hread : ∀ journal, (Stage.beforeGone journal streams chunk path).follow setup
      (.fetch 1 >>= fun bytes => pure (IntKind.u8.decode order bytes)) =
        (.error (.io path ⟨"Other", "disk gone"⟩),
          Stage.afterGone journal streams chunk path) := by
    intro journal
    rw [Stage.follow_bind, hfetch]
  obtain ⟨announced, hinteger⟩ : ∃ announced,
      (Stage.beforeGone journal streams chunk path).follow setup (integer .u8 scope) =
        (.error (.io path ⟨"Other", "disk gone"⟩),
          Stage.afterGone announced streams chunk path) := by
    unfold integer
    rw [show IntKind.u8.label = "U8" from rfl, hscope]
    exact ⟨_, hread _⟩
  unfold int
  rw [Stage.follow_bind, hinteger]
  rfl

end Read

/-- A file named `x` with some fields in big-endian order. -/
def fileOf (fields : List Node) : Node := .ofKind (.file "x" [.ofKind (.order .big fields)])

/-- The scope of the fields of `fileOf`. -/
def fieldScope : Scope :=
  ⟨some .big, Path.resolve "." "x", ".", some (Path.resolve "." "x"), none⟩

/-- What a pass has written down when it comes to the fields of `fileOf`. -/
def fieldJournal : Journal :=
  #[.trace (.opening (Path.resolve "." "x")), .opened (Path.resolve "." "x"),
    .trace (.readReady (Path.resolve "." "x") 1024)]

/-- The site of the fields of `fileOf`. -/
def Schema.fieldSite (schema : Schema) (fields : List Node) : Site :=
  (schema.rootSite.below .child (fileOf fields)).below .child (.ofKind (.order .big fields))

/-- A pass over `fileOf` comes to the fields. -/
theorem Schema.reaches_fields {schema : Schema} {fields : List Node}
    (hroot : schema.root = fileOf fields) (hcount : schema.fileCount = 1) {β : Type}
    {later : Stage} {part : Plan β}
    (h : Stage.Reaches ⟨fun _ _ => .ok goneSource, 1024, false⟩ later part
      (.beforeGone fieldJournal #[] 1024 (Path.resolve "." "x"))
      (Pass.walkAll ⟨.null, false⟩ (schema.fieldSite fields) fieldScope none [] fields)) :
    Stage.Reaches ⟨fun _ _ => .ok goneSource, 1024, false⟩ later part
      (Stage.empty.log (Options.forReading.warnings .read))
      (schema.readPlan none .forReading) := by
  unfold Schema.readPlan
  rw [if_neg (by rw [hcount]; decide), hcount, hroot]
  refine .first _ ?_
  show Stage.Reaches _ _ _ _ (Pass.walk _ _ _ _ _ (.mk (.file _ [.ofKind (.order _ _)]) _ _ _))
  rw [Pass.walk]
  refine .first _ ?_
  unfold Pass.inFile
  refine .next rfl ?_
  refine .next rfl ?_
  refine .next rfl ?_
  refine .first _ ?_
  show Stage.Reaches _ _ _ _ (Pass.walkAll _ _ _ _ _ [.mk (.order _ _) _ _ _])
  rw [Pass.walkAll, Pass.walk]
  refine .first _ ?_
  exact .first _ h

/-- A field that may be missing, and a byte behind it. -/
def lenient : Schema := ⟨fileOf [maybeField, byteField "value"], .root, rfl⟩

/-- A byte. -/
def strict : Schema := ⟨fileOf [byteField "value"], .root, rfl⟩

/-- A pass over `strict` comes to the byte with the source still untouched. -/
theorem strict_reaches : strict.ReadReaches .forReading none (fun _ _ => .ok goneSource)
    (.beforeGone fieldJournal #[] 1024 (Path.resolve "." "x")) ⟨.null, false⟩
    (strict.fieldSite [byteField "value"]) fieldScope none [] (byteField "value") := by
  refine Schema.reaches_fields rfl rfl ?_
  rw [Pass.walkAll]
  exact .first _ .here

/-- Past the field that may be missing, a pass over `lenient` comes to the byte. -/
theorem lenient_reaches : ∃ stage, lenient.ReadReaches .forReading none
    (fun _ _ => .ok goneSource) stage ⟨.null, false⟩
      (lenient.fieldSite [maybeField, byteField "value"]) fieldScope none
      (Fields.insert [] "maybe" .null) (byteField "value") ∧
    stage.current = some (.gone 1024 (Path.resolve "." "x")) := by
  have hscope : (fieldScope.field maybeField.label).fieldOrder "CUSTOM" = .ok .big := rfl
  obtain ⟨later, hcustom, hcurrent⟩ := Pass.custom_tolerant ⟨.null, false⟩
    ⟨fun _ _ => .ok goneSource, 1024, false⟩ fieldJournal #[] 1024 (Path.resolve "." "x") hscope []
  refine ⟨later, Schema.reaches_fields rfl rfl ?_, hcurrent⟩
  rw [Pass.walkAll]
  show Stage.Reaches _ _ _ _ (Pass.walk _ _ _ _ _ (.mk (.custom tolerant) _ _ _) >>= _)
  rw [Pass.walk]
  refine .next hcustom ?_
  refine .first _ ?_
  rw [Pass.walkAll]
  exact .first _ .here

theorem Kind.stopping_of_builtIn {kind : Kind} (h : kind.BuiltIn) : kind.Stopping := by
  cases kind with
  | custom codec => cases h
  | _ => trivial

/-- What comes after a failed read gets no byte; passes over `lenient` and over `strict` whose
source fails are in error; a pass over `tagged` that ends well leaves only closed streams. -/
theorem Schema.read_failed_lenient :
    (let setup : Setup := ⟨fun _ _ => .ok goneSource, 1024, false⟩
      let failed := ((Stage.alone (.create goneSource 1024 "x")).answer setup (.fetch 1)).2
      ∃ stream, failed.current = some stream ∧
        (∀ count bytes, (stream.readBytes count).result = .ok bytes → bytes = []) ∧
        (failed.follow setup (.fetch 1)).1 = .error (.poisoned stream.path)) ∧
    (∃ error, (lenient.read none .forReading fun _ _ => .ok goneSource).result = .error error) ∧
    (∃ error, (strict.read none .forReading fun _ _ => .ok goneSource).result = .error error) ∧
    let written := tagged.write taggedData taggedOptions fun _ _ => .ok .faultless
    ∀ stream ∈ (tagged.read none taggedOptions (sourceOf written.contents)).streams.toList,
      stream.state = .closed := by
  refine ⟨?_, ?_, ?_, ?_⟩
  · intro setup failed
    obtain ⟨hfails, hnothing, hstarves, -⟩ := lenient.read_failed .forReading none setup.opener
    have hfetch : failure? ((Stage.alone (.create goneSource 1024 "x")).onStream (·.fetch 1)).1 =
        some (.io "x" ⟨"Other", "disk gone"⟩) := by
      rw [show Stage.alone _ = Stage.beforeGone #[] #[] 1024 "x" from rfl, Stage.fetch_gone]
      rfl
    obtain ⟨stream, hcurrent, hstate⟩ := hfails setup _ (.fetch 1) _ _ trivial hfetch
    obtain ⟨events, hfollow⟩ := hstarves setup failed stream hcurrent hstate (.fetch 1)
      ⟨trivial, fun _ => trivial⟩
    refine ⟨stream, hcurrent, fun count bytes hread => ?_, congrArg Prod.fst hfollow⟩
    exact hnothing stream hstate count bytes (.inr hread)
  · obtain ⟨stage, hreaches, hcurrent⟩ := lenient_reaches
    obtain ⟨-, -, -, hfails, -⟩ := lenient.read_failed .forReading none fun _ _ => .ok goneSource
    exact hfails _ _ _ _ _ _ _ _ hreaches hcurrent rfl rfl
  · obtain ⟨-, -, -, -, hfails, -⟩ := strict.read_failed .forReading none fun _ _ => .ok goneSource
    refine hfails _ _ _ _ _ _ _ strict_reaches ⟨List.forall_mem_nil _, ?_⟩
      ⟨trivial, trivial, trivial⟩ ?_
    · intro stream hstream
      obtain rfl := Option.some.inj hstream
      rfl
    · intro hunfailed
      have hscope : (fieldScope.field (byteField "value").label).fieldOrder "U8" = .ok .big := rfl
      have hcurrent := Pass.int_gone ⟨.null, false⟩ ⟨fun _ _ => .ok goneSource, 1024, false⟩
        fieldJournal #[] 1024 (Path.resolve "." "x") hscope (some "value") []
      have hopen := hunfailed.current (.gone 1024 (Path.resolve "." "x")) hcurrent
      cases hopen
  · intro written
    have hsinks := Write.SinkOpener.neverFails_faultless
    have hok := (Schema.answer_written tagged_builtIn hsinks
      ((Schema.write_result hsinks).trans tagged_outcome) tagged_paths
      ((Schema.faithful_write_iff hsinks).mpr tagged_faithful) rfl rfl (handsOut_sourceOf _)).1
    obtain ⟨-, -, -, -, -, hcloses⟩ :=
      tagged.read_failed taggedOptions none (sourceOf written.contents)
    exact hcloses (Node.Every.imp (fun _ => Kind.stopping_of_builtIn) _ tagged_builtIn) _ hok

end ByteLayout
