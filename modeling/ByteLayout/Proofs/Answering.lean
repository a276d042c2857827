import ByteLayout.Proofs.ReadStream
import ByteLayout.Proofs.Retracing
import ByteLayout.Proofs.Steps
import ByteLayout.Read.Stage

/-!
# Answering a plan from the files of a script

A plan that retraces a script is answered from sources that hand out the files of that script, each
to its end. At every moment one can tell from the steps that are still to come what the open stream
has unread (`Stage.Reading`), how far every file will be read (`Stage.spans`) and what the journal
will show (`Stage.foretold`).

**Theorem (`Stage.answerAll_retraces`).** If a plan retraces a script, then, answered from the files
of the script, it ends with the result of the script; every file is read to its last byte; and, if
the passes are aligned, the journal shows the same choices of nodes and the same fields.
-/

namespace ByteLayout

/-- A way to look at events that sees nothing but choices of nodes and fields, and not which pass
announced a field. -/
structure Impartial {α : Type} (look : Event → Option α) : Prop where
  quiet : Attentive look
  unseen : ∀ event : Event, event.Unseen → look event = none
  field : ∀ (side side' : Side) (debug debug' : Bool) (path kind : String) (offset : Nat),
    look (.trace (.field side debug path kind offset)) =
      look (.trace (.field side' debug' path kind offset))

theorem impartial_select? : Impartial Event.select? :=
  ⟨attentive_select?, fun _ h => h.1, fun _ _ _ _ _ _ _ => rfl⟩

theorem impartial_field? : Impartial Event.field? :=
  ⟨attentive_field?, fun _ h => h.2, fun _ _ _ _ _ _ _ => rfl⟩

namespace Read

open Write (Step)

/-- Whether an opener hands out the given files. If the passes are not aligned, it is not known
under which paths they are asked for. -/
def SourceOpener.Serves (aligned : Prop) (opener : SourceOpener)
    (files : List (String × List UInt8)) : Prop :=
  ∀ before path other bytes, (path, bytes) ∈ files → (aligned → other = path) →
    ∃ behaviour, opener before other = .ok behaviour ∧ behaviour.Generous ∧ behaviour.data = bytes

namespace Stage

/-! ## What a stage has read and will read -/

/-- Whether a file is open, and what is unread of it. -/
structure Reading (stage : Stage) (inFile : Bool) (unread : List UInt8) : Prop where
  isSome : stage.current.isSome = inFile
  current : ∀ stream ∈ stage.current, stream.Healthy ∧ stream.unread = unread

/-- How far the files are read, after the steps that are still to come. -/
def spans (stage : Stage) (steps : List Step) : List (String × Nat) :=
  stage.streams.toList.map (fun stream => (stream.path, stream.position)) ++
    (stage.current.toList.map fun stream =>
      (stream.path, stream.position + (Step.content [] steps).length)) ++
    (Step.files [] steps).map fun file => (file.1, file.2.length)

/-- What the journal shows, after the steps that are still to come. -/
def foretold {α : Type} (stage : Stage) (debug : Bool) (look : Event → Option α)
    (steps : List Step) : List α :=
  stage.journal.view look ++ (Step.shown debug stage.offset steps).filterMap look

theorem Reading.current_eq_none {stage : Stage} {unread : List UInt8}
    (h : stage.Reading false unread) : stage.current = none :=
  Option.not_isSome_iff_eq_none.mp (by rw [h.isSome]; exact Bool.false_ne_true)

theorem Reading.current_eq_some {stage : Stage} {unread : List UInt8}
    (h : stage.Reading true unread) :
    ∃ stream, stage.current = some stream ∧ stream.Healthy ∧ stream.unread = unread := by
  obtain ⟨stream, hstream⟩ := Option.isSome_iff_exists.mp h.isSome
  exact ⟨stream, hstream, h.current stream hstream⟩

theorem reading_empty (events : List Event) (unread : List UInt8) :
    (Stage.empty.log events).Reading false unread :=
  ⟨rfl, (fun _ h => nomatch h)⟩

theorem spans_nil {stage : Stage} (h : stage.current = none) :
    stage.spans [] = stage.streams.toList.map fun stream => (stream.path, stream.position) := by
  unfold spans
  rw [h, Step.files, Option.toList_none, List.map_nil, List.map_nil, List.append_nil,
    List.append_nil]

/-! ## One question -/

/-- A question met the step that answers it. -/
structure Meets (aligned : Prop) (setup : Setup) (debug : Bool) (stage : Stage)
    (question : Question) (reply : question.Reply) (step : Step) (rest : List Step)
    (tail : List UInt8) (after : Bool) (later : Stage) : Prop where
  answer : stage.answer setup question = (reply, later)
  reading : later.Reading after (Step.content tail rest)
  spans : aligned → later.spans rest = stage.spans (step :: rest)
  foretold : aligned → ∀ {α : Type} {look : Event → Option α}, Impartial look →
    later.foretold debug look rest = stage.foretold debug look (step :: rest)

variable {aligned : Prop} {setup : Setup} {debug : Bool} {stage : Stage} {rest : List Step}
  {tail : List UInt8}

theorem Reading.log {inFile : Bool} {unread : List UInt8} (h : stage.Reading inFile unread)
    (events : List Event) : (stage.log events).Reading inFile unread :=
  ⟨h.isSome, h.current⟩

theorem foretold_log {α : Type} {look : Event → Option α} (events : List Event)
    (steps : List Step) :
    (stage.log events).foretold debug look steps =
      stage.journal.view look ++
        (events.filterMap look ++ (Step.shown debug stage.offset steps).filterMap look) := by
  have hview : (stage.log events).journal.view look =
      stage.journal.view look ++ events.filterMap look := Journal.view_append look _ _
  unfold Stage.foretold
  rw [hview, List.append_assoc]
  rfl

/-- What is unseen changes nothing of what is foretold. -/
theorem foretold_log_unseen {α : Type} {look : Event → Option α} (hlook : Impartial look)
    {event : Event} (h : event.Unseen) (steps : List Step) :
    (stage.log [event]).foretold debug look steps = stage.foretold debug look steps := by
  rw [foretold_log, List.filterMap_cons_none (hlook.unseen event h)]
  rfl

theorem foretold_ahead {α : Type} {look : Event → Option α} (hlook : Impartial look)
    {event : Event} (h : event.Unseen) (steps : List Step) :
    stage.foretold debug look (.record event :: steps) = stage.foretold debug look steps := by
  unfold Stage.foretold
  rw [Step.shown, List.filterMap_cons_none (hlook.unseen event h)]

theorem meets_select {inFile : Bool} {context other : FieldContext}
    (hsame : aligned → other = context)
    (h : stage.Reading inFile (Step.content tail (.record (.call (.select context)) :: rest))) :
    Meets aligned setup debug stage (.record (.call (.select other))) ()
      (.record (.call (.select context))) rest tail inFile
      (stage.log [.call (.select other)]) := by
  refine ⟨rfl, h.log _, fun _ => rfl, fun haligned _ look hlook => ?_⟩
  rw [foretold_log, hsame haligned, ← List.filterMap_append]
  rfl

theorem meets_field {path other kind : String} (hsame : aligned → other = path)
    (h : stage.Reading true (Step.content tail (.field path kind :: rest))) :
    Meets aligned setup debug stage (.field other kind) () (.field path kind) rest tail true
      (stage.log [.trace (.field .read setup.debug other kind stage.offset)]) := by
  refine ⟨rfl, h.log _, fun _ => rfl, fun haligned _ look hlook => ?_⟩
  have hfield := hlook.field .read .write setup.debug debug path kind stage.offset
  rw [foretold_log, hsame haligned]
  unfold Stage.foretold
  conv => rhs; rw [Step.shown, ← List.singleton_append, List.filterMap_append]
  simp only [List.filterMap_cons, List.filterMap_nil, hfield]

/-- Bytes come from the open stream. -/
theorem onStream_gives {stream : ReadStream} {bytes unread : List UInt8}
    (operation : ReadStream → Outcome ReadStream (List UInt8))
    (hcurrent : stage.current = some stream) (hstream : stream.unread = bytes ++ unread)
    (hgives : ReadStream.Gives stream bytes bytes (operation stream)) :
    ∃ later, stage.onStream operation = (.ok bytes, later) ∧ later.Reading true unread ∧
      later.streams = stage.streams ∧
      (∃ moved, later.current = some moved ∧ moved.path = stream.path ∧
        moved.position = stream.position + bytes.length) ∧
      ∀ {α : Type} {look : Event → Option α}, Attentive look →
        later.journal.view look = stage.journal.view look := by
  obtain ⟨journal, streams, current⟩ := stage
  obtain rfl : current = some stream := hcurrent
  obtain ⟨hok, hadvanced, hquiet⟩ := hgives
  refine ⟨⟨journal ++ (operation stream).events, streams, some (operation stream).stream⟩, ?_,
    ⟨rfl, fun moved hmoved => ?_⟩, rfl, ⟨_, rfl, hadvanced.path, hadvanced.consumed⟩,
    fun hlook => Journal.view_append_quiet hlook _ hquiet⟩
  · unfold onStream
    simp only [hok]
  · obtain rfl := Option.some.inj hmoved
    exact ⟨hadvanced.healthy,
      List.append_cancel_left (hadvanced.unread.symm.trans hstream)⟩

theorem meets_onStream {question : Question} {reply : question.Reply} {step : Step}
    {stream : ReadStream} {later : Stage} {bytes : List UInt8}
    (hanswer : stage.answer setup question = (reply, later))
    (hcurrent : stage.current = some stream)
    (hreading : later.Reading true (Step.content tail rest))
    (hstreams : later.streams = stage.streams)
    (hmoved : ∃ moved, later.current = some moved ∧ moved.path = stream.path ∧
      moved.position = stream.position + bytes.length)
    (hview : ∀ {α : Type} {look : Event → Option α}, Attentive look →
      later.journal.view look = stage.journal.view look)
    (hcontent : Step.content [] (step :: rest) = bytes ++ Step.content [] rest)
    (hfiles : Step.files [] (step :: rest) = Step.files [] rest)
    (hshown : ∀ offset, Step.shown debug offset (step :: rest) =
      Step.shown debug (offset + bytes.length) rest) :
    Meets aligned setup debug stage question reply step rest tail true later := by
  obtain ⟨moved, hcurrent', hpath, hposition⟩ := hmoved
  refine ⟨hanswer, hreading, fun _ => ?_, fun _ _ look hlook => ?_⟩
  · unfold Stage.spans
    rw [hstreams, hcurrent, hcurrent', hcontent, hfiles]
    simp only [Option.toList_some, List.map_cons, List.map_nil, hpath, hposition,
      List.length_append, Nat.add_assoc]
  · have hoffset : later.offset = stage.offset + bytes.length := by
      unfold offset
      rw [hcurrent, hcurrent']
      exact hposition
    unfold Stage.foretold
    rw [hview hlook.quiet, hoffset, hshown]

theorem meets_fetch {bytes : List UInt8}
    (h : stage.Reading true (Step.content tail (.scalar bytes :: rest))) :
    ∃ later, Meets aligned setup debug stage (.fetch bytes.length) (.ok bytes) (.scalar bytes) rest
      tail true later := by
  obtain ⟨stream, hcurrent, hhealthy, hunread⟩ := h.current_eq_some
  obtain ⟨later, hanswer, hreading, hstreams, hmoved, hview⟩ :=
    onStream_gives (·.fetch bytes.length) hcurrent hunread
      (ReadStream.fetch_gives hhealthy hunread)
  exact ⟨later, meets_onStream hanswer hcurrent hreading hstreams hmoved hview rfl rfl
    fun _ => rfl⟩

theorem meets_read {bytes : List UInt8}
    (h : stage.Reading true (Step.content tail (.payload bytes :: rest))) :
    ∃ later, Meets aligned setup debug stage (.read bytes.length) (.ok bytes) (.payload bytes) rest
      tail true later := by
  obtain ⟨stream, hcurrent, hhealthy, hunread⟩ := h.current_eq_some
  obtain ⟨later, hanswer, hreading, hstreams, hmoved, hview⟩ :=
    onStream_gives (·.readBytes bytes.length) hcurrent hunread
      (ReadStream.readBytes_gives hhealthy hunread)
  exact ⟨later, meets_onStream hanswer hcurrent hreading hstreams hmoved hview rfl rfl
    fun _ => rfl⟩

theorem meets_openFile {path other : String} (hsame : aligned → other = path)
    (h : stage.Reading false (Step.content tail (.openFile path :: rest)))
    (hserves : setup.opener.Serves aligned (Step.files tail (.openFile path :: rest))) :
    ∃ later, Meets aligned setup debug stage (.openFile other) (.ok ()) (.openFile path) rest
      tail true later := by
  obtain ⟨behaviour, hopen, hgenerous, hdata⟩ :=
    hserves stage.openedPaths path other _ List.mem_cons_self hsame
  obtain ⟨journal, streams, current⟩ := stage
  obtain rfl : current = none := h.current_eq_none
  refine ⟨⟨journal ++ [Event.opened other, .trace (.readReady other setup.chunk)], streams,
    some (.create behaviour setup.chunk other)⟩, ?_, ⟨rfl, fun stream hstream => ?_⟩,
    fun haligned => ?_, fun _ _ look hlook => ?_⟩
  · show openStream setup _ other = _
    unfold openStream
    rw [hopen]
    rfl
  · obtain rfl := Option.some.inj hstream
    exact ⟨ReadStream.healthy_create hgenerous _ _, hdata⟩
  · unfold Stage.spans
    rw [Step.files, hsame haligned]
    simp only [Option.toList_some, Option.toList_none, List.map_cons, List.map_nil,
      List.append_nil, List.append_assoc, List.cons_append, List.nil_append]
    show _ ++ (path, 0 + (Step.content [] rest).length) :: _ = _
    rw [Nat.zero_add]
  · have hopened : look (.opened other) = none := hlook.unseen _ ⟨rfl, rfl⟩
    have hwritten : look (.opened path) = none := hlook.unseen _ ⟨rfl, rfl⟩
    have hready : look (.trace (.readReady other setup.chunk)) = none := hlook.quiet _ trivial
    unfold Stage.foretold
    rw [Journal.view_append, Step.shown]
    simp only [List.filterMap_cons, List.filterMap_nil, hopened, hwritten, hready,
      List.append_nil]
    rfl

theorem meets_closeFile {path other : String}
    (h : stage.Reading true (Step.content tail (.closeFile path :: rest))) :
    ∃ later, Meets aligned setup debug stage (.closeFile other) () (.closeFile path) rest tail
      false later := by
  obtain ⟨stream, hcurrent, -, -⟩ := h.current_eq_some
  obtain ⟨journal, streams, current⟩ := stage
  obtain rfl : current = some stream := hcurrent
  refine ⟨⟨journal.push (.trace (.fileRead other stream.position)) ++
    [Event.trace (.readClosed stream.path stream.consumed)], streams.push stream.close.stream,
    none⟩, rfl, ⟨rfl, (fun _ hnone => nomatch hnone)⟩, fun _ => ?_, fun _ _ look hlook => ?_⟩
  · unfold Stage.spans
    rw [Step.files, Step.content]
    simp only [Array.toList_push, List.map_append, List.map_cons, List.map_nil,
      Option.toList_some, Option.toList_none, List.append_nil]
    rfl
  · have hread : look (.trace (.fileRead other stream.position)) = none := hlook.quiet _ trivial
    have hclosed : look (.trace (.readClosed stream.path stream.consumed)) = none :=
      hlook.quiet _ trivial
    unfold Stage.foretold
    rw [Journal.view_append, Journal.view_push, Step.shown]
    simp only [List.filterMap_cons, List.filterMap_nil, hread, hclosed, List.append_nil]
    rfl

/-! ## A whole plan -/

/-- What has become of a stage when a plan was answered that retraces some steps. -/
structure Answered (aligned : Prop) (debug : Bool) (stage : Stage) (steps : List Step)
    (tail : List UInt8) (last : Bool) (later : Stage) : Prop where
  reading : later.Reading last tail
  spans : aligned → later.spans [] = stage.spans steps
  foretold : aligned → ∀ {α : Type} {look : Event → Option α}, Impartial look →
    later.journal.view look = stage.foretold debug look steps

/-- After a question that met its step, the rest of the plan is answered. -/
theorem Meets.answered {question : Question} {reply : question.Reply} {step : Step}
    {after last : Bool} {middle later : Stage}
    (h : Meets aligned setup debug stage question reply step rest tail after middle)
    (hrest : Answered aligned debug middle rest tail last later) :
    Answered aligned debug stage (step :: rest) tail last later :=
  ⟨hrest.reading, fun haligned => (hrest.spans haligned).trans (h.spans haligned),
    fun haligned _ _ hlook =>
      (hrest.foretold haligned hlook).trans (h.foretold haligned hlook)⟩

theorem Meets.answerAll {α : Type} {question : Question} {reply : question.Reply} {step : Step}
    {after : Bool} {middle later : Stage} {result : α}
    {next : question.Reply → Dialogue Question.Reply α}
    (h : Meets aligned setup debug stage question reply step rest tail after middle)
    (hrest : middle.answerAll setup (next reply) = (result, later)) :
    stage.answerAll setup (.ask question next) = (result, later) := by
  rw [Stage.answerAll, h.answer]
  exact hrest

/-- **A plan that retraces a script is answered from the files of the script.** -/
theorem answerAll_retraces {α : Type} {plan : Plan α} {steps : List Step} {a : α}
    (h : Retraces aligned plan steps a) (setup : Setup) (debug : Bool) {stage : Stage}
    {inFile last : Bool} {tail : List UInt8} (hlast : Step.nextAll inFile steps = some last)
    (hreading : stage.Reading inFile (Step.content tail steps))
    (hserves : setup.opener.Serves aligned (Step.files tail steps)) :
    ∃ later, stage.answerAll setup plan = (.ok a, later) ∧
      Answered aligned debug stage steps tail last later := by
  induction h generalizing stage inFile with
  | done a =>
    obtain rfl := Option.some.inj hlast
    exact ⟨stage, rfl, hreading, fun _ => rfl, fun _ _ _ _ => (List.append_nil _).symm⟩
  | ahead hunseen _ ih =>
    obtain ⟨later, hall, hanswered⟩ := ih hlast hreading hserves
    exact ⟨later, hall, hanswered.reading, hanswered.spans, fun haligned _ _ hlook =>
      (hanswered.foretold haligned hlook).trans (foretold_ahead hlook hunseen _).symm⟩
  | aside hunseen _ ih =>
    obtain ⟨later, hall, hanswered⟩ := ih hlast (hreading.log _) hserves
    exact ⟨later, hall, hanswered.reading, hanswered.spans, fun haligned _ _ hlook =>
      (hanswered.foretold haligned hlook).trans (foretold_log_unseen hlook hunseen _)⟩
  | select hsame _ ih =>
    have hmeets : Meets aligned setup debug stage _ _ _ _ tail _ _ :=
      meets_select hsame hreading
    obtain ⟨later, hall, hanswered⟩ := ih hlast hmeets.reading hserves
    exact ⟨later, hmeets.answerAll hall, hmeets.answered hanswered⟩
  | field kind hsame _ ih =>
    cases inFile with
    | false => cases hlast
    | true =>
      have hmeets : Meets aligned setup debug stage _ _ _ _ tail _ _ := meets_field hsame hreading
      obtain ⟨later, hall, hanswered⟩ := ih hlast hmeets.reading hserves
      exact ⟨later, hmeets.answerAll hall, hmeets.answered hanswered⟩
  | fetch bytes _ ih =>
    rw [Step.nextAll_cons] at hlast
    obtain ⟨after, hafter, hlast⟩ := Option.bind_eq_some_iff.mp hlast
    simp only [Step.next, Option.ite_none_right_eq_some, Option.some.injEq] at hafter
    obtain ⟨⟨rfl, -⟩, rfl⟩ := hafter
    obtain ⟨middle, hmeets⟩ := meets_fetch hreading
    obtain ⟨later, hall, hanswered⟩ := ih hlast hmeets.reading hserves
    exact ⟨later, hmeets.answerAll hall, hmeets.answered hanswered⟩
  | read bytes _ ih =>
    cases inFile with
    | false => cases hlast
    | true =>
      obtain ⟨middle, hmeets⟩ := meets_read hreading
      obtain ⟨later, hall, hanswered⟩ := ih hlast hmeets.reading hserves
      exact ⟨later, hmeets.answerAll hall, hmeets.answered hanswered⟩
  | openFile hsame _ ih =>
    cases inFile with
    | true => cases hlast
    | false =>
      obtain ⟨middle, hmeets⟩ := meets_openFile hsame hreading hserves
      obtain ⟨later, hall, hanswered⟩ := ih hlast hmeets.reading
        fun before path other bytes hfile => hserves before path other bytes
          (List.mem_cons_of_mem _ hfile)
      exact ⟨later, hmeets.answerAll hall, hmeets.answered hanswered⟩
  | closeFile hsame _ ih =>
    cases inFile with
    | false => cases hlast
    | true =>
      obtain ⟨middle, hmeets⟩ := meets_closeFile hreading
      obtain ⟨later, hall, hanswered⟩ := ih hlast hmeets.reading hserves
      exact ⟨later, hmeets.answerAll hall, hmeets.answered hanswered⟩

end Stage

/-- A whole pass over the files of a script that its plan retraces. -/
theorem Plan.answer_retraces {α : Type} {aligned : Prop} {plan : Plan α} {steps : List Step} {a : α}
    (h : Retraces aligned plan steps a) (setup : Setup) (before : List Event) (debug : Bool)
    (hlast : Step.nextAll false steps = some false)
    (hserves : setup.opener.Serves aligned (Step.files [] steps)) :
    (plan.answer setup before).result = .ok a ∧
      (aligned → (plan.answer setup before).streams.toList.map
        (fun stream => (stream.path, stream.position)) =
          (Step.files [] steps).map fun file => (file.1, file.2.length)) ∧
      (aligned → ∀ {β : Type} {look : Event → Option β}, Impartial look →
        (plan.answer setup before).journal.view look =
          before.filterMap look ++ (Step.shown debug 0 steps).filterMap look) := by
  obtain ⟨later, hall, hanswered⟩ := Stage.answerAll_retraces h setup debug hlast
    (Stage.reading_empty before _) hserves
  have hcurrent := hanswered.reading.current_eq_none
  have habandon : later.abandon = later := by
    unfold Stage.abandon
    rw [hcurrent]
  unfold Plan.answer
  rw [hall]
  dsimp only
  rw [habandon]
  refine ⟨rfl, fun haligned => ?_, fun haligned _ look hlook => ?_⟩
  · exact (Stage.spans_nil hcurrent).symm.trans (hanswered.spans haligned)
  · have hforetold := hanswered.foretold haligned hlook
    unfold Stage.foretold Stage.log Stage.empty at hforetold
    rw [hforetold, Journal.view_append]
    rfl

end Read

end ByteLayout
