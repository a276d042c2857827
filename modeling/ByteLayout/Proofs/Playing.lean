import ByteLayout.Proofs.Order
import ByteLayout.Proofs.Steps
import ByteLayout.Proofs.WriteStream
import ByteLayout.Write.Pass
import Mathlib.Data.List.Forall2

/-!
# Playing a script on sinks that do not fail

A script is played step by step, and at every moment one can tell what will have come of it: the
files with all their bytes (`Stage.promised`) and what the journal will show (`Stage.foretold`).
On sinks that never fail, a step in its place fulfils a part of that and changes nothing of the
rest; the capacity of the buffers and what the sinks accept at once do not occur in it.

**Theorem (`Stage.playAll_sound`).** On sinks that never fail, an orderly script is played to its
end, and then the files hold what the steps say and the journal shows what they say.

**Theorem (`Schema.write_bufferSize`).** Two write passes that differ only in the size of their
buffers and in the behaviour of their sinks, none of which fails, open the same files, make the same
callbacks and have the same result; their files are the same, except that of a file that was not
finished one sink may have received more.
-/

namespace ByteLayout.Write

/-- Whether every sink can be opened and never fails. -/
def SinkOpener.NeverFails (opener : SinkOpener) : Prop :=
  ∀ before path, ∃ behaviour, opener before path = .ok behaviour ∧ behaviour.NeverFails

theorem SinkOpener.neverFails_faultless : SinkOpener.NeverFails fun _ _ => .ok .faultless :=
  fun _ _ => ⟨_, rfl, SinkBehaviour.neverFails_faultless⟩

/-- A setup with sinks that never fail and with buffers that are large enough for any scalar. -/
structure Setup.Sound (setup : Setup) : Prop where
  opener : setup.opener.NeverFails
  capacity : 8 ≤ setup.capacity

namespace Stage

/-! ## What a stage holds -/

/-- The path of a stream with the bytes that it has accepted. -/
def held (stream : WriteStream) : String × List UInt8 := (stream.path, stream.accepted)

/-- The files with their bytes, after the steps that are still to come. -/
def promised (stage : Stage) (steps : List Step) : List (String × List UInt8) :=
  stage.streams.toList.map held ++
    (stage.current.toList.map fun stream =>
      (stream.path, stream.accepted ++ Step.content [] steps)) ++
    Step.files [] steps

/-- What the journal shows, after the steps that are still to come. -/
def foretold {α : Type} (stage : Stage) (debug : Bool) (look : Event → Option α)
    (steps : List Step) : List α :=
  stage.journal.view look ++ (Step.shown debug stage.offset steps).filterMap look

/-- A stage with sinks that never fail. Streams that are put away are finished. -/
structure Sound (stage : Stage) (inFile : Bool) : Prop where
  isSome : stage.current.isSome = inFile
  current : ∀ stream ∈ stage.current, stream.Faultless ∧ 8 ≤ stream.capacity
  closed : ∀ stream ∈ stage.streams.toList,
    stream.state = .closed ∧ stream.buffer.bytes = []

theorem promised_nil (stage : Stage) :
    stage.promised [] = stage.streams.toList.map held ++ stage.current.toList.map held := by
  unfold promised Step.content Step.files
  simp only [List.append_nil]
  rfl

theorem foretold_nil {α : Type} (stage : Stage) (debug : Bool) (look : Event → Option α) :
    stage.foretold debug look [] = stage.journal.view look :=
  List.append_nil _

theorem sound_empty (events : List Event) : (Stage.empty.log events).Sound false :=
  ⟨rfl, (fun _ h => nomatch h), (fun _ h => nomatch h)⟩

theorem Sound.current_eq_none {stage : Stage} (h : stage.Sound false) : stage.current = none :=
  Option.not_isSome_iff_eq_none.mp (by rw [h.isSome]; exact Bool.false_ne_true)

theorem Sound.current_eq_some {stage : Stage} (h : stage.Sound true) :
    ∃ stream, stage.current = some stream ∧ stream.Faultless ∧ 8 ≤ stream.capacity := by
  obtain ⟨stream, hstream⟩ := Option.isSome_iff_exists.mp h.isSome
  exact ⟨stream, hstream, h.current stream hstream⟩

/-! ## One step -/

/-- A step was taken: the stage afterwards is sound, promises what was promised before, and
foretells what was foretold. -/
structure Advance (setup : Setup) (stage : Stage) (step : Step) (after : Bool) (later : Stage) :
    Prop where
  play : stage.play setup step = (later, none)
  sound : later.Sound after
  promised : ∀ rest, later.promised rest = stage.promised (step :: rest)
  foretold : ∀ {α : Type} {look : Event → Option α}, Attentive look → ∀ rest,
    later.foretold setup.debug look rest = stage.foretold setup.debug look (step :: rest)

variable {setup : Setup} {stage : Stage}

theorem Sound.log {inFile : Bool} (h : stage.Sound inFile) (events : List Event) :
    (stage.log events).Sound inFile :=
  ⟨h.isSome, h.current, h.closed⟩

/-- What a step writes down was foretold. -/
theorem foretold_log {α : Type} {look : Event → Option α} {debug : Bool} {step : Step}
    {event : Event} {rest : List Step} (hshown : Step.shown debug stage.offset (step :: rest) =
      event :: Step.shown debug stage.offset rest) :
    (stage.log [event]).foretold debug look rest = stage.foretold debug look (step :: rest) := by
  have hview : (stage.log [event]).journal.view look =
      stage.journal.view look ++ [event].filterMap look := Journal.view_append look _ _
  unfold Stage.foretold
  rw [hview, hshown, List.append_assoc, ← List.filterMap_append]
  rfl

theorem advance_record {inFile : Bool} (h : stage.Sound inFile) (event : Event) :
    Advance setup stage (.record event) inFile (stage.log [event]) :=
  ⟨rfl, h.log _, fun _ => rfl, fun _ _ => foretold_log rfl⟩

theorem advance_field (h : stage.Sound true) (path kind : String) :
    Advance setup stage (.field path kind) true
      (stage.log [.trace (.field .write setup.debug path kind stage.offset)]) :=
  ⟨rfl, h.log _, fun _ => rfl, fun _ _ => foretold_log rfl⟩

/-- Bytes go to the open stream. -/
theorem advance_onStream {stream : WriteStream} {bytes : List UInt8}
    {operation : WriteStream → Outcome WriteStream Unit} {step : Step} (h : stage.Sound true)
    (hcurrent : stage.current = some stream)
    (hplay : stage.play setup step = stage.onStream operation)
    (hadds : WriteStream.Adds stream bytes (operation stream))
    (hcontent : ∀ rest, Step.content [] (step :: rest) = bytes ++ Step.content [] rest)
    (hfiles : ∀ rest, Step.files [] (step :: rest) = Step.files [] rest)
    (hshown : ∀ offset rest, Step.shown setup.debug offset (step :: rest) =
      Step.shown setup.debug (offset + bytes.length) rest) :
    ∃ later, Advance setup stage step true later := by
  obtain ⟨journal, streams, current⟩ := stage
  obtain rfl : current = some stream := hcurrent
  obtain ⟨hfaultless, hcapacity⟩ := h.current stream rfl
  obtain ⟨⟨a, ha⟩, hextended, hquiet⟩ := hadds
  refine ⟨⟨journal ++ (operation stream).events, streams, some (operation stream).stream⟩,
    ?_, ⟨rfl, ?_, h.closed⟩, fun rest => ?_, fun hlook rest => ?_⟩
  · rw [hplay]
    unfold onStream
    simp only [ha]
  · intro later hlater
    obtain rfl := Option.some.inj hlater
    exact ⟨hextended.faultless, hextended.capacity ▸ hcapacity⟩
  · unfold Stage.promised
    rw [hcontent, hfiles]
    simp only [Option.toList_some, List.map_cons, List.map_nil, hextended.accepted,
      hextended.path, List.append_assoc]
  · have hoffset : (operation stream).stream.position = stream.position + bytes.length := by
      rw [WriteStream.position_eq_length hextended.faultless,
        WriteStream.position_eq_length hfaultless, hextended.accepted, List.length_append]
    unfold Stage.foretold
    rw [Journal.view_append_quiet hlook _ hquiet, hshown]
    show _ ++ List.filterMap _ (Step.shown _ (operation stream).stream.position rest) = _
    rw [hoffset]
    rfl

theorem advance_openFile (h : stage.Sound false) (hsetup : setup.Sound) (path : String) :
    ∃ later, Advance setup stage (.openFile path) true later := by
  obtain ⟨behaviour, hopen, hnever⟩ := hsetup.opener stage.openedPaths path
  obtain ⟨journal, streams, current⟩ := stage
  obtain rfl : current = none := h.current_eq_none
  refine ⟨⟨journal ++ [Event.opened path, .trace (.writeReady path setup.capacity)], streams,
    some (.create behaviour setup.capacity path)⟩, ?_, ⟨rfl, ?_, h.closed⟩,
    fun rest => ?_, fun hlook rest => ?_⟩
  · unfold play
    simp only [hopen]
    rfl
  · intro stream hstream
    obtain rfl := Option.some.inj hstream
    refine ⟨WriteStream.faultless_create hnever _ _, ?_⟩
    rw [WriteStream.capacity_create]
    exact Nat.le_trans hsetup.capacity (Nat.le_max_left _ _)
  · unfold Stage.promised
    rw [Step.files]
    simp only [Option.toList_some, Option.toList_none, List.map_cons, List.map_nil,
      WriteStream.accepted_create, List.nil_append, List.append_nil, List.append_assoc,
      List.cons_append]
    rfl
  · unfold Stage.foretold
    rw [Journal.view_append, Step.shown, List.append_assoc, ← List.filterMap_append]
    have hready : _ = none := hlook (.trace (.writeReady path setup.capacity)) trivial
    simp only [List.cons_append, List.nil_append, List.filterMap_cons, hready]
    rfl

theorem advance_closeFile (h : stage.Sound true) (path : String) :
    ∃ later, Advance setup stage (.closeFile path) false later := by
  obtain ⟨stream, hcurrent, hfaultless, -⟩ := h.current_eq_some
  obtain ⟨journal, streams, current⟩ := stage
  obtain rfl : current = some stream := hcurrent
  obtain ⟨⟨total, htotal⟩, hclosed, hdata, hbuffered, hpath, hquiet⟩ :=
    WriteStream.finish_faultless hfaultless
  have haccepted : stream.finish.stream.accepted = stream.accepted := by
    unfold WriteStream.accepted at hdata ⊢
    rw [hdata, hbuffered, List.append_nil]
  refine ⟨⟨(journal ++ stream.finish.events).push (.trace (.fileWritten path total)),
    streams.push stream.finish.stream, none⟩, ?_, ⟨rfl, (fun _ hnone => nomatch hnone), ?_⟩,
    fun rest => ?_, fun hlook rest => ?_⟩
  · unfold play closeStream
    simp only [htotal]
  · intro later hlater
    rw [Array.toList_push, List.mem_append, List.mem_singleton] at hlater
    rcases hlater with hlater | rfl
    · exact h.closed later hlater
    · exact ⟨hclosed, hbuffered⟩
  · unfold Stage.promised
    rw [Step.content, Step.files]
    simp only [Array.toList_push, List.map_append, List.map_cons, List.map_nil,
      Option.toList_some, Option.toList_none, List.append_nil, held, haccepted, hpath]
  · unfold Stage.foretold
    rw [Journal.view_push, Journal.view_append_quiet hlook _ hquiet, Step.shown]
    have hwritten : _ = none := hlook (.trace (.fileWritten path total)) trivial
    simp only [List.filterMap_cons, hwritten, List.filterMap_nil, List.append_nil]
    rfl

/-- **A step in its place is taken**, and fulfils its part of what was promised and foretold. -/
theorem play_sound {inFile after : Bool} {step : Step} (hsetup : setup.Sound)
    (h : stage.Sound inFile) (hnext : step.next inFile = some after) :
    ∃ later, Advance setup stage step after later := by
  cases step with
  | record event =>
    obtain rfl := Option.some.inj hnext
    exact ⟨_, advance_record h event⟩
  | openFile path =>
    cases inFile with
    | true => cases hnext
    | false =>
      obtain rfl := Option.some.inj hnext
      exact advance_openFile h hsetup path
  | field path kind =>
    cases inFile with
    | false => cases hnext
    | true =>
      obtain rfl := Option.some.inj hnext
      exact ⟨_, advance_field h path kind⟩
  | scalar bytes =>
    simp only [Step.next, Option.ite_none_right_eq_some, Option.some.injEq] at hnext
    obtain ⟨⟨rfl, hlength⟩, rfl⟩ := hnext
    obtain ⟨stream, hcurrent, hfaultless, hcapacity⟩ := h.current_eq_some
    exact advance_onStream h hcurrent rfl
      (WriteStream.put_adds hfaultless (Nat.le_trans hlength hcapacity))
      (fun _ => rfl) (fun _ => rfl) (fun _ _ => rfl)
  | payload bytes =>
    cases inFile with
    | false => cases hnext
    | true =>
      obtain rfl := Option.some.inj hnext
      obtain ⟨stream, hcurrent, hfaultless, -⟩ := h.current_eq_some
      exact advance_onStream h hcurrent rfl (WriteStream.copy_adds hfaultless bytes)
        (fun _ => rfl) (fun _ => rfl) (fun _ _ => rfl)
  | closeFile path =>
    cases inFile with
    | false => cases hnext
    | true =>
      obtain rfl := Option.some.inj hnext
      exact advance_closeFile h path

/-! ## A whole script -/

/-- **An orderly script is played to its end**, and then the files hold and the journal shows what
its steps say. -/
theorem playAll_sound {α : Type} {inFile last : Bool} (hsetup : setup.Sound) (script : Script α)
    (h : stage.Sound inFile) (hlast : Step.nextAll inFile script.steps = some last) :
    ∃ later, stage.playAll setup script = (later, script.outcome) ∧ later.Sound last ∧
      later.promised [] = stage.promised script.steps ∧
      ∀ {β : Type} {look : Event → Option β}, Attentive look →
        later.journal.view look = stage.foretold setup.debug look script.steps := by
  induction script generalizing stage inFile with
  | done result =>
    obtain rfl := Option.some.inj hlast
    exact ⟨stage, rfl, h, rfl, fun _ => (foretold_nil _ _ _).symm⟩
  | ask step next ih =>
    change Step.nextAll inFile (step :: Script.steps (next ())) = some last at hlast
    rw [Step.nextAll_cons] at hlast
    obtain ⟨after, hafter, hrest⟩ := Option.bind_eq_some_iff.mp hlast
    obtain ⟨middle, hplay, hsound, hpromised, hforetold⟩ := play_sound hsetup h hafter
    obtain ⟨later, hall, hlater, hheld, hshown⟩ := ih () hsound hrest
    refine ⟨later, ?_, hlater, hheld.trans (hpromised _), fun hlook => ?_⟩
    · rw [playAll, hplay]
      exact hall
    · rw [hshown hlook]
      exact hforetold hlook _

/-- Putting away what is open writes nothing down. -/
theorem journal_abandon (stage : Stage) : stage.abandon.journal = stage.journal := by
  unfold abandon
  split <;> rfl

end Stage

/-! ## Whole passes -/

/-- A whole pass on sinks that never fail: its result, its files, and what its journal shows. Only a
file that is left open is not finished. -/
theorem Script.play_sound {α : Type} {setup : Setup} {last : Bool} (hsetup : setup.Sound)
    (script : Script α) (before : List Event)
    (hlast : Step.nextAll false script.steps = some last) :
    ∃ later : Stage, later.Sound last ∧ later.promised [] = Step.files [] script.steps ∧
      (script.play setup before).result = script.outcome ∧
      (script.play setup before).streams = later.abandon.streams ∧
      ∀ {β : Type} {look : Event → Option β}, Attentive look →
        (script.play setup before).journal.view look =
          before.filterMap look ++ (Step.shown setup.debug 0 script.steps).filterMap look := by
  obtain ⟨later, hall, hsound, hpromised, hshown⟩ :=
    Stage.playAll_sound hsetup script (Stage.sound_empty before) hlast
  refine ⟨later, hsound, hpromised, ?_, ?_, fun hlook => ?_⟩
  · unfold Script.play
    rw [hall]
  · unfold Script.play
    rw [hall]
  · have hbefore := hshown hlook
    unfold Script.play
    rw [hall]
    show later.abandon.journal.view _ = _
    rw [Stage.journal_abandon, hbefore]
    unfold Stage.foretold Stage.log Stage.empty
    rw [Journal.view_append]
    rfl

/-- A pass that ends well has finished all its files. -/
theorem Script.contents_play {α : Type} {setup : Setup} {a : α} (hsetup : setup.Sound)
    (script : Script α) (before : List Event) (horderly : Orderly false false script)
    (hok : script.outcome = .ok a) :
    (script.play setup before).streams.toList.map (fun stream =>
      (stream.path, stream.sink.data.toList)) = Step.files [] script.steps := by
  obtain ⟨last, hlast, hend⟩ := horderly
  obtain rfl := hend a hok
  obtain ⟨later, hsound, hpromised, -, hstreams, -⟩ := script.play_sound hsetup before hlast
  have hcurrent := hsound.current_eq_none
  have habandon : later.abandon = later := by
    unfold Stage.abandon
    rw [hcurrent]
  rw [hstreams, habandon, ← hpromised, Stage.promised_nil, hcurrent, Option.toList_none,
    List.map_nil, List.append_nil]
  refine List.map_congr_left fun stream hstream => ?_
  unfold Stage.held WriteStream.accepted
  rw [(hsound.closed stream hstream).2, List.append_nil]

/-- Two streams of one file, which is finished in both with the same bytes or in neither. Of a file
that is not finished one sink may have received more than the other. -/
structure Agree (first second : WriteStream) : Prop where
  path : first.path = second.path
  state : first.state = second.state
  finished : first.state = .closed → first.sink.data = second.sink.data
  received : first.sink.data.toList <+: second.sink.data.toList ∨
    second.sink.data.toList <+: first.sink.data.toList

theorem agree_of_closed {first second : WriteStream}
    (h : first.state = .closed ∧ first.buffer.bytes = [])
    (h' : second.state = .closed ∧ second.buffer.bytes = [])
    (hheld : Stage.held first = Stage.held second) : Agree first second := by
  obtain ⟨hpath, haccepted⟩ := Prod.mk.inj hheld
  unfold WriteStream.accepted at haccepted
  rw [h.2, h'.2, List.append_nil, List.append_nil] at haccepted
  have hdata := Array.toList_inj.mp haccepted
  exact ⟨hpath, h.1.trans h'.1.symm, fun _ => hdata, .inl (hdata ▸ List.prefix_rfl)⟩

theorem agree_of_aborted {first second : WriteStream} (h : first.Faultless)
    (h' : second.Faultless) (hheld : Stage.held first = Stage.held second) :
    Agree first.abort second.abort := by
  obtain ⟨hpath, haccepted⟩ := Prod.mk.inj hheld
  have habort : ∀ {stream : WriteStream}, stream.Faultless →
      stream.abort = { stream with state := .errored } := by
    intro stream hstream
    have hlive := hstream.live
    unfold WriteStream.abort
    rw [if_neg]
    intro hclosed
    rw [hclosed] at hlive
    cases hlive
  rw [habort h, habort h']
  have hfirst : first.sink.data.toList <+: first.accepted := List.prefix_append _ _
  have hsecond : second.sink.data.toList <+: first.accepted :=
    haccepted ▸ List.prefix_append _ _
  exact ⟨hpath, rfl, (fun hclosed => nomatch hclosed),
    List.prefix_or_prefix_of_prefix hfirst hsecond⟩

theorem forall₂_agree_of_closed {first second : List WriteStream}
    (h : ∀ stream ∈ first, stream.state = .closed ∧ stream.buffer.bytes = [])
    (h' : ∀ stream ∈ second, stream.state = .closed ∧ stream.buffer.bytes = [])
    (hheld : first.map Stage.held = second.map Stage.held) : List.Forall₂ Agree first second := by
  induction first generalizing second with
  | nil =>
    rw [List.map_nil, eq_comm, List.map_eq_nil_iff] at hheld
    rw [hheld]
    exact .nil
  | cons stream rest ih =>
    cases second with
    | nil => cases hheld
    | cons other others =>
      obtain ⟨hhead, hrest⟩ := List.cons.inj hheld
      exact .cons
        (agree_of_closed (h stream List.mem_cons_self) (h' other List.mem_cons_self) hhead)
        (ih (fun s hs => h s (List.mem_cons_of_mem _ hs))
          (fun s hs => h' s (List.mem_cons_of_mem _ hs)) hrest)

/-- Stages that hold the same files with the same bytes have streams that agree. -/
theorem Stage.Sound.agree {first second : Stage} {last : Bool} (h : first.Sound last)
    (h' : second.Sound last) (hheld : first.promised [] = second.promised []) :
    List.Forall₂ Agree first.abandon.streams.toList second.abandon.streams.toList := by
  rw [promised_nil, promised_nil] at hheld
  have hlength : (first.current.toList.map held).length =
      (second.current.toList.map held).length := by
    rw [List.length_map, List.length_map, Option.length_toList, Option.length_toList, h.isSome,
      h'.isSome]
  obtain ⟨hstreams, hcurrent⟩ := List.append_inj' hheld hlength
  have hput := forall₂_agree_of_closed h.closed h'.closed hstreams
  unfold abandon
  cases last with
  | false =>
    rw [h.current_eq_none, h'.current_eq_none]
    exact hput
  | true =>
    obtain ⟨stream, hstream, hfaultless, -⟩ := h.current_eq_some
    obtain ⟨other, hother, hfaultless', -⟩ := h'.current_eq_some
    rw [hstream, hother] at hcurrent ⊢
    simp only [Array.toList_push]
    exact List.rel_append hput (.cons
      (agree_of_aborted hfaultless hfaultless' (List.singleton_inj.mp hcurrent)) .nil)

end ByteLayout.Write

namespace ByteLayout

open Write

theorem Options.minBufferSize_le_clamped (options : Options) :
    minBufferSize ≤ options.clamped.bufferSize :=
  Nat.le_max_right _ _

/-- The setup of a write pass is sound if no sink ever fails. -/
theorem Schema.sound_setup {opener : SinkOpener} (h : opener.NeverFails) (options : Options) :
    Setup.Sound
      { opener, capacity := options.clamped.bufferSize, debug := options.debug } :=
  ⟨h, Nat.le_trans (by decide) options.minBufferSize_le_clamped⟩

/-- **Write buffers are invisible.** Two write passes that differ in the size of their buffers and
in their sinks, none of which fails, open the same files in the same order and make the same
callbacks; both have the same result or fail with the same error; and their files agree. -/
theorem Schema.write_bufferSize (schema : Schema) (provider : Provider) (options : Options)
    (size size' : Nat) {opener opener' : SinkOpener} (h : opener.NeverFails)
    (h' : opener'.NeverFails) :
    let first := schema.write provider { options with bufferSize := size } opener
    let second := schema.write provider { options with bufferSize := size' } opener'
    first.journal.openings = second.journal.openings ∧
      first.journal.calls = second.journal.calls ∧
      first.result = second.result ∧
      List.Forall₂ Agree first.streams.toList second.streams.toList := by
  intro first second
  obtain ⟨last, hlast, -⟩ := schema.writeScript_orderly provider options
  obtain ⟨later, hsound, hheld, hresult, hstreams, hshown⟩ :=
    Script.play_sound (sound_setup h { options with bufferSize := size })
      (schema.writeScript provider options)
      (Options.warnings { options with bufferSize := size } .write) hlast
  obtain ⟨later', hsound', hheld', hresult', hstreams', hshown'⟩ :=
    Script.play_sound (sound_setup h' { options with bufferSize := size' })
      (schema.writeScript provider options)
      (Options.warnings { options with bufferSize := size' } .write) hlast
  have hview : ∀ {α : Type} {look : Event → Option α}, Attentive look →
      first.journal.view look = second.journal.view look := by
    intro α look hlook
    refine (hshown hlook).trans (Eq.trans ?_ (hshown' hlook).symm)
    rw [Options.filterMap_warnings hlook, Options.filterMap_warnings hlook]
  refine ⟨hview attentive_opened?, hview attentive_call?, hresult.trans hresult'.symm, ?_⟩
  have hfirst : first.streams = later.abandon.streams := hstreams
  have hsecond : second.streams = later'.abandon.streams := hstreams'
  rw [hfirst, hsecond]
  exact hsound.agree hsound' (hheld.trans hheld'.symm)

/-- A text behind its length, written through a small buffer into a sink that accepts one byte at a
time, and through a large buffer into one that accepts whatever it is offered. -/
theorem Schema.write_bufferSize_greeting :
    let text := Node.ofKind (.text .utf8)
    let greeting := ((Node.ofKind (.int .u16)).named "greeting").withString text
    let schema : Schema := ⟨.ofKind (.order .big [greeting]), .root, rfl⟩
    let provider := Provider.record [("greeting", .value (.string "Hello"))]
    let options : Options := { path := "greeting.bin", bufferSize := 0 }
    let first := schema.write provider { options with bufferSize := 1 } fun _ _ =>
      .ok { write := fun _ _ => .accepted 1 }
    let second := schema.write provider { options with bufferSize := 4096 } fun _ _ =>
      .ok .faultless
    first.journal.openings = second.journal.openings ∧
      first.journal.calls = second.journal.calls ∧
      first.result = second.result ∧
      List.Forall₂ Agree first.streams.toList second.streams.toList :=
  Schema.write_bufferSize _ _ _ 1 4096
    (fun _ _ => ⟨_, rfl, fun _ _ _ => ⟨0, rfl⟩, rfl, rfl⟩)
    SinkOpener.neverFails_faultless

end ByteLayout
