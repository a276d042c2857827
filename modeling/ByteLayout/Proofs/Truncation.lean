import ByteLayout.Proofs.Playing
import ByteLayout.Proofs.WriteFailure
import ByteLayout.Storage

/-!
# Passes on sinks that may fail

A pass whose sinks may fail is compared with the pass of the same layout, provider and options whose
sinks never do. Both play the same script, and as long as nothing failed their stages go
**alongside**: the journals show the same, and the sinks have received the same bytes. Once
something failed the first pass is over, and as a step never takes anything back it stays
**behind** the second, which goes on alone.

**Theorem (`Schema.write_truncated`).** A failure of a sink only truncates: the files opened, the
callbacks made and the bytes of each file come first in those of the pass without failures. A pass
ends well only if every file is complete.
-/

namespace ByteLayout.Write

/-! ## Truncated files -/

/-- Whether some files are the first of others, each with bytes that come first in the other's. -/
def Truncates (files whole : List (String × List UInt8)) : Prop :=
  ∀ (index : Nat) (path : String) (bytes : List UInt8), files[index]? = some (path, bytes) →
    ∃ more, whole[index]? = some (path, more) ∧ bytes <+: more

namespace Truncates

theorem refl (files : List (String × List UInt8)) : Truncates files files :=
  fun _ _ bytes h => ⟨bytes, h, List.prefix_rfl⟩

theorem trans {first second third : List (String × List UInt8)} (h : Truncates first second)
    (h' : Truncates second third) : Truncates first third := by
  intro index path bytes hbytes
  obtain ⟨more, hmore, hrest⟩ := h index path bytes hbytes
  obtain ⟨most, hmost, hrest'⟩ := h' index path more hmore
  exact ⟨most, hmost, hrest.trans hrest'⟩

theorem append (files : List (String × List UInt8)) {rest more : List (String × List UInt8)}
    (h : Truncates rest more) : Truncates (files ++ rest) (files ++ more) := by
  intro index path bytes hbytes
  rcases Nat.lt_or_ge index files.length with hlt | hge
  · rw [List.getElem?_append_left hlt] at hbytes ⊢
    exact ⟨bytes, hbytes, List.prefix_rfl⟩
  · rw [List.getElem?_append_right hge] at hbytes ⊢
    exact h _ _ _ hbytes

theorem nil (whole : List (String × List UInt8)) : Truncates [] whole :=
  fun _ _ _ h => nomatch h

theorem singleton {path : String} {bytes more : List UInt8} (h : bytes <+: more) :
    Truncates [(path, bytes)] [(path, more)] := by
  intro index other others hother
  cases index with
  | zero =>
    obtain ⟨rfl, rfl⟩ := Prod.mk.inj (Option.some.inj hother)
    exact ⟨more, rfl, h⟩
  | succ index => cases hother

end Truncates

namespace Stage

/-- The path of a file with the bytes that its sink has received. -/
def received (stream : WriteStream) : String × List UInt8 := (stream.path, stream.sink.data.toList)

theorem received_eq {stream stream' : WriteStream} (h : stream.Alongside stream') :
    received stream' = received stream := by
  unfold received
  rw [h.path, h.data]

/-- The files opened so far with the bytes that their sinks have received. -/
def written (stage : Stage) : List (String × List UInt8) :=
  stage.streams.toList.map received ++ stage.current.toList.map received

theorem written_abandon (stage : Stage) :
    stage.abandon.streams.toList.map received = stage.written := by
  obtain ⟨journal, streams, current⟩ := stage
  cases current with
  | none => exact (List.append_nil _).symm
  | some stream =>
    have habort : received stream.abort = received stream := by
      unfold WriteStream.abort
      split <;> rfl
    show (streams.push stream.abort).toList.map received = _
    rw [Array.toList_push, List.map_append, List.map_singleton, habort]
    rfl

/-! ## Two stages -/

/-- Two stages in which nothing has failed. The sinks of the second never fail. -/
structure Alongside (stage other : Stage) : Prop where
  journal : stage.journal.Alike other.journal
  streams : other.streams.toList.map received = stage.streams.toList.map received
  current : Option.Rel WriteStream.Alongside stage.current other.current

/-- Two stages of which the second has come further, if anything. -/
structure Behind (stage other : Stage) : Prop where
  journal : ∀ {α : Type} {look : Event → Option α}, Attentive look →
    stage.journal.view look <+: other.journal.view look
  written : Truncates stage.written other.written

variable {stage other : Stage}

theorem Alongside.refl (h : ∀ stream ∈ stage.current, stream.sink.behaviour.NeverFails) :
    stage.Alongside stage := by
  refine ⟨fun _ _ _ => rfl, rfl, ?_⟩
  cases hcurrent : stage.current with
  | none => exact .none
  | some stream => exact .some (.refl (h stream hcurrent))

theorem Behind.trans {first second third : Stage} (h : first.Behind second)
    (h' : second.Behind third) : first.Behind third :=
  ⟨fun hlook => (h.journal hlook).trans (h'.journal hlook), h.written.trans h'.written⟩

theorem Alongside.written_eq (h : stage.Alongside other) : other.written = stage.written := by
  obtain ⟨journal, streams, current⟩ := stage
  obtain ⟨journal', streams', current'⟩ := other
  obtain ⟨-, hstreams, hcurrent⟩ := h
  have hlast : current'.toList.map received = current.toList.map received := by
    cases hcurrent with
    | none => rfl
    | some hstream => simp [received_eq hstream]
  unfold written
  rw [hstreams, hlast]

theorem Alongside.current_eq_none (h : stage.Alongside other) (hnone : other.current = none) :
    stage.current = none := by
  obtain ⟨journal, streams, current⟩ := stage
  obtain ⟨journal', streams', current'⟩ := other
  obtain ⟨-, -, hcurrent⟩ := h
  obtain rfl : current' = none := hnone
  cases hcurrent
  rfl

theorem Alongside.behind (h : stage.Alongside other) : stage.Behind other :=
  ⟨h.journal.view_isPrefix, h.written_eq ▸ .refl _⟩

theorem Behind.refl (stage : Stage) : stage.Behind stage := ⟨fun _ => List.prefix_rfl, .refl _⟩

/-- What the journal shows may grow, and so may the last file. -/
theorem behind_of_last {streams streams' : Array WriteStream} {stream stream' : WriteStream}
    (hjournal : ∀ {α : Type} {look : Event → Option α}, Attentive look →
      stage.journal.view look <+: other.journal.view look)
    (hwritten : stage.written = streams.toList.map received ++ [received stream])
    (hwritten' : other.written = streams'.toList.map received ++ [received stream'])
    (hstreams : streams'.toList.map received = streams.toList.map received)
    (hlast : stream.Behind stream') : stage.Behind other := by
  refine ⟨hjournal, ?_⟩
  rw [hwritten, hwritten', hstreams]
  unfold received
  rw [hlast.path]
  exact .append _ (.singleton hlast.data)

/-- What came of two stages, given how the first failed, if it did. -/
inductive Trails (stage other : Stage) : Option Error → Prop where
  | alongside (h : stage.Alongside other) : Trails stage other none
  | behind (error : Error) (h : stage.Behind other) : Trails stage other (some error)

theorem Trails.isBehind {failure : Option Error} (h : Trails stage other failure) :
    stage.Behind other := by
  cases h with
  | alongside halong => exact halong.behind
  | behind error hbehind => exact hbehind

/-! ## One step -/

variable {first second : Setup}

theorem Alongside.offset_eq (h : stage.Alongside other) : other.offset = stage.offset := by
  obtain ⟨journal, streams, current⟩ := stage
  obtain ⟨journal', streams', current'⟩ := other
  obtain ⟨-, -, hcurrent⟩ := h
  cases hcurrent with
  | none => rfl
  | some hstream => simp [Stage.offset, WriteStream.position, hstream.flushed, hstream.buffer]

theorem log_behind (stage : Stage) (events : List Event) : stage.Behind (stage.log events) := by
  refine ⟨fun hlook => ?_, .refl _⟩
  show _ <+: Journal.view _ (stage.journal ++ events)
  rw [Journal.view_append]
  exact List.prefix_append _ _

theorem Alongside.log (h : stage.Alongside other) (events : List Event) :
    (stage.log events).Alongside (other.log events) :=
  ⟨h.journal.append fun _ _ _ => rfl, h.streams, h.current⟩

theorem onStream_some (journal : Journal) (streams : Array WriteStream) (stream : WriteStream)
    (operation : WriteStream → Outcome WriteStream Unit) :
    onStream ⟨journal, streams, some stream⟩ operation =
      (⟨journal ++ (operation stream).events, streams, some (operation stream).stream⟩,
        match (operation stream).result with
        | .ok _ => none
        | .error error => some error) := by
  unfold onStream
  dsimp only
  cases (operation stream).result with
  | ok _ => rfl
  | error error => rfl

/-- What is done to the open stream keeps the stages alongside, or leaves the first behind. -/
theorem onStream_trails {operation : WriteStream → Outcome WriteStream Unit}
    (h : stage.Alongside other)
    (hoperation : ∀ {stream other : WriteStream}, stream.Alongside other →
      WriteStream.Trails other (operation stream) (operation other)) :
    Trails (stage.onStream operation).1 (other.onStream operation).1
        (stage.onStream operation).2 ∧
      other.Behind (other.onStream operation).1 := by
  obtain ⟨journal, streams, current⟩ := stage
  obtain ⟨journal', streams', current'⟩ := other
  obtain ⟨hjournal, hstreams, hcurrent⟩ := h
  cases hcurrent with
  | none => exact ⟨.alongside ⟨hjournal, hstreams, .none⟩, .refl _⟩
  | @some stream stream' hstream =>
    obtain ⟨htrails, hgrows, -, hquiet, hquiet'⟩ := hoperation hstream
    have hlater : Journal.Alike (journal ++ (operation stream).events)
        (journal' ++ (operation stream').events) := hjournal.append_quiet hquiet hquiet'
    rw [onStream_some, onStream_some]
    constructor
    · rcases htrails with ⟨-, halong⟩ | ⟨error, herror, hbehind⟩
      · have hstages : Alongside
            ⟨journal ++ (operation stream).events, streams, some (operation stream).stream⟩
            ⟨journal' ++ (operation stream').events, streams', some (operation stream').stream⟩ :=
          ⟨hlater, hstreams, .some halong⟩
        cases (operation stream).result with
        | ok _ => exact .alongside hstages
        | error error => exact .behind error hstages.behind
      · rw [herror]
        exact .behind error (behind_of_last hlater.view_isPrefix rfl rfl hstreams hbehind)
    · refine behind_of_last (fun hlook => ?_) rfl rfl rfl hgrows
      rw [Journal.view_append]
      exact List.prefix_append _ _

section CloseStream

variable {journal : Journal} {streams : Array WriteStream} {stream : WriteStream} {path : String}

theorem closeStream_ok {total : Nat} (h : stream.finish.result = .ok total) :
    closeStream ⟨journal, streams, some stream⟩ path =
      (⟨(journal ++ stream.finish.events).push (.trace (.fileWritten path total)),
        streams.push stream.finish.stream, none⟩, none) := by
  unfold closeStream
  simp only [h]

theorem closeStream_error {error : Error} (h : stream.finish.result = .error error) :
    closeStream ⟨journal, streams, some stream⟩ path =
      (⟨journal ++ stream.finish.events, streams, some stream.finish.stream⟩, some error) := by
  unfold closeStream
  simp only [h]

/-- However a stream is finished, its file is the last one. -/
theorem written_closeStream :
    written (closeStream ⟨journal, streams, some stream⟩ path).1 =
      streams.toList.map received ++ [received stream.finish.stream] := by
  cases hresult : stream.finish.result with
  | ok total =>
    rw [closeStream_ok hresult]
    simp [written]
  | error error =>
    rw [closeStream_error hresult]
    rfl

theorem view_closeStream {α : Type} {look : Event → Option α} (hlook : Attentive look)
    (hquiet : ∀ event ∈ stream.finish.events, event.Quiet) :
    (closeStream ⟨journal, streams, some stream⟩ path).1.journal.view look =
      journal.view look := by
  cases hresult : stream.finish.result with
  | ok total =>
    have hwritten : _ = none := hlook (.trace (.fileWritten path total)) trivial
    rw [closeStream_ok hresult]
    simp [Journal.view_append_quiet hlook _ hquiet, hwritten]
  | error error =>
    rw [closeStream_error hresult]
    exact Journal.view_append_quiet hlook _ hquiet

end CloseStream

theorem closeFile_trails (h : stage.Alongside other) (path : String) :
    Trails (stage.closeStream path).1 (other.closeStream path).1 (stage.closeStream path).2 ∧
      other.Behind (other.closeStream path).1 := by
  obtain ⟨journal, streams, current⟩ := stage
  obtain ⟨journal', streams', current'⟩ := other
  obtain ⟨hjournal, hstreams, hcurrent⟩ := h
  cases hcurrent with
  | none => exact ⟨.alongside ⟨hjournal, hstreams, .none⟩, .refl _⟩
  | @some stream stream' hstream =>
    obtain ⟨htrails, hgrows, -, hquiet, hquiet'⟩ := WriteStream.finish_trails hstream
    have hlater : (closeStream ⟨journal, streams, some stream⟩ path).1.journal.Alike
        (closeStream ⟨journal', streams', some stream'⟩ path).1.journal := by
      intro α look hlook
      rw [view_closeStream hlook hquiet, view_closeStream hlook hquiet']
      exact hjournal α look hlook
    have hlast : stream.finish.stream.Behind stream'.finish.stream →
        Behind (closeStream ⟨journal, streams, some stream⟩ path).1
          (closeStream ⟨journal', streams', some stream'⟩ path).1 :=
      behind_of_last hlater.view_isPrefix written_closeStream written_closeStream hstreams
    constructor
    · rcases htrails with ⟨hresult', halong⟩ | ⟨error, herror, hbehind⟩
      · cases hresult : stream.finish.result with
        | ok total =>
          rw [closeStream_ok hresult, closeStream_ok (hresult'.trans hresult)] at hlater ⊢
          refine .alongside ⟨hlater, ?_, .none⟩
          simp only [Array.toList_push, List.map_append, List.map_singleton, received_eq halong]
          exact congrArg (· ++ _) hstreams
        | error error =>
          rw [congrArg Prod.snd (closeStream_error hresult)]
          exact .behind error (hlast halong.behind)
      · rw [congrArg Prod.snd (closeStream_error herror)]
        exact .behind error (hlast hbehind)
    · exact behind_of_last (fun hlook => view_closeStream hlook hquiet' ▸ List.prefix_rfl) rfl
        written_closeStream rfl hgrows

/-- The second opens its file in any case. -/
theorem openFile_trails (hopener : second.opener.NeverFails)
    (hcapacity : first.capacity = second.capacity) (h : stage.Alongside other)
    (hcurrent : other.current = none) (path : String) :
    Trails (stage.play first (.openFile path)).1 (other.play second (.openFile path)).1
        (stage.play first (.openFile path)).2 ∧
      other.Behind (other.play second (.openFile path)).1 := by
  obtain ⟨behaviour', hopen', hnever⟩ := hopener other.openedPaths path
  have hgrows : other.Behind (other.play second (.openFile path)).1 := by
    unfold play
    simp only [hopen']
    refine ⟨(log_behind other _).journal, ?_⟩
    unfold written
    rw [hcurrent]
    exact .append _ (.nil _)
  refine ⟨?_, hgrows⟩
  unfold play at hgrows ⊢
  simp only [hopen'] at hgrows ⊢
  cases first.opener stage.openedPaths path with
  | error error => exact .behind error (h.behind.trans hgrows)
  | ok behaviour =>
    rw [hcapacity]
    exact .alongside ⟨(h.log _).journal, h.streams, .some ⟨rfl, rfl, rfl, rfl, rfl, hnever⟩⟩

/-- **A step keeps the stages alongside**, or the first has failed and is behind; and the second
never takes anything back. -/
theorem play_trails {inFile after : Bool} {step : Step} (hopener : second.opener.NeverFails)
    (hcapacity : first.capacity = second.capacity) (hdebug : first.debug = second.debug)
    (h : stage.Alongside other) (hsound : other.Sound inFile)
    (hnext : step.next inFile = some after) :
    Trails (stage.play first step).1 (other.play second step).1 (stage.play first step).2 ∧
      other.Behind (other.play second step).1 := by
  cases step with
  | record event => exact ⟨.alongside (h.log _), log_behind other _⟩
  | openFile path =>
    cases inFile with
    | true => cases hnext
    | false => exact openFile_trails hopener hcapacity h hsound.current_eq_none path
  | field path kind =>
    refine ⟨.alongside ?_, log_behind other _⟩
    unfold play
    rw [hdebug, ← h.offset_eq]
    exact h.log _
  | scalar bytes => exact onStream_trails h fun hstream => WriteStream.put_trails hstream bytes
  | payload bytes => exact onStream_trails h fun hstream => WriteStream.copy_trails hstream bytes
  | closeFile path => exact closeFile_trails h path

/-! ## A whole script -/

theorem Sound.alongside {inFile : Bool} (h : stage.Sound inFile) : stage.Alongside stage :=
  .refl fun stream hstream => (h.current stream hstream).1.sink

/-- **A script keeps the stages alongside** up to the first failure, and from then on the second
goes on alone. -/
theorem playAll_trails {α : Type} {inFile last : Bool} (hsecond : second.Sound)
    (hcapacity : first.capacity = second.capacity) (hdebug : first.debug = second.debug)
    (script : Script α) (h : stage.Alongside other) (hsound : other.Sound inFile)
    (hlast : Step.nextAll inFile script.steps = some last) :
    ∃ failure : Option Error,
      (stage.playAll first script).2 = failure.elim script.outcome .error ∧
      Trails (stage.playAll first script).1 (other.playAll second script).1 failure ∧
      other.Behind (other.playAll second script).1 := by
  induction script generalizing stage other inFile with
  | done result => exact ⟨none, rfl, .alongside h, .refl other⟩
  | ask step next ih =>
    change Step.nextAll inFile (step :: Script.steps (next ())) = some last at hlast
    rw [Step.nextAll_cons] at hlast
    obtain ⟨after, hafter, hrest⟩ := Option.bind_eq_some_iff.mp hlast
    obtain ⟨htrails, hgrows⟩ := play_trails hsecond.opener hcapacity hdebug h hsound hafter
    obtain ⟨middle', hadvance⟩ := play_sound hsecond hsound hafter
    have hother : other.playAll second (.ask step next) = middle'.playAll second (next ()) := by
      rw [playAll, hadvance.play]
    rw [hadvance.play] at htrails hgrows
    rw [hother]
    cases hplay : stage.play first step with | mk middle failure
    rw [hplay] at htrails
    rw [playAll, hplay]
    cases htrails with
    | alongside halong =>
      obtain ⟨failure, hresult, hlater, hmore⟩ := ih () halong hadvance.sound hrest
      exact ⟨failure, hresult, hlater, hgrows.trans hmore⟩
    | behind error hbehind =>
      obtain ⟨-, -, -, hmore⟩ := ih () hadvance.sound.alongside hadvance.sound hrest
      exact ⟨some error, rfl, .behind error (hbehind.trans hmore), hgrows.trans hmore⟩

/-! ## Files that are put away -/

variable {setup : Setup}

theorem streams_onStream (stage : Stage) (operation : WriteStream → Outcome WriteStream Unit) :
    (stage.onStream operation).1.streams = stage.streams := by
  obtain ⟨journal, streams, current⟩ := stage
  cases current with
  | none => rfl
  | some stream => rw [onStream_some]

theorem streams_openFile (stage : Stage) (path : String) :
    (stage.play setup (.openFile path)).1.streams = stage.streams := by
  simp only [play]
  split
  · rfl
  · rfl

theorem closeStream_completed (h : ∀ stream ∈ stage.streams.toList, stream.Completed)
    (path : String) : ∀ stream ∈ (stage.closeStream path).1.streams.toList, stream.Completed := by
  obtain ⟨journal, streams, current⟩ := stage
  cases current with
  | none => exact h
  | some last =>
    cases hresult : last.finish.result with
    | ok total =>
      rw [closeStream_ok hresult]
      intro stream hstream
      rw [Array.toList_push, List.mem_append, List.mem_singleton] at hstream
      rcases hstream with hstream | rfl
      · exact h stream hstream
      · exact WriteStream.finish_completed hresult
    | error error =>
      rw [closeStream_error hresult]
      exact h

/-- A step puts away only files that are complete. -/
theorem play_completed (h : ∀ stream ∈ stage.streams.toList, stream.Completed) (step : Step) :
    ∀ stream ∈ (stage.play setup step).1.streams.toList, stream.Completed := by
  cases step with
  | record event => exact h
  | openFile path =>
    rw [streams_openFile]
    exact h
  | field path kind => exact h
  | scalar bytes => exact fun stream hstream => h stream (streams_onStream stage _ ▸ hstream)
  | payload bytes => exact fun stream hstream => h stream (streams_onStream stage _ ▸ hstream)
  | closeFile path => exact closeStream_completed h path

/-- **Only complete files are put away**, whatever the sinks do. -/
theorem playAll_completed {α : Type} (h : ∀ stream ∈ stage.streams.toList, stream.Completed)
    (script : Script α) :
    ∀ stream ∈ (stage.playAll setup script).1.streams.toList, stream.Completed := by
  induction script generalizing stage with
  | done result => exact h
  | ask step next ih =>
    have hstep : ∀ stream ∈ (stage.play setup step).1.streams.toList, stream.Completed :=
      play_completed h step
    intro stream hstream
    rw [playAll] at hstream
    cases hplay : stage.play setup step with | mk later failure
    rw [hplay] at hstep hstream
    cases failure with
    | none => exact ih () hstep stream hstream
    | some error => exact hstep stream hstream

end Stage

/-! ## Whole passes -/

/-- The first report tells of less than the second; or it tells of the same, if it ends well. -/
structure Report.Truncates {α : Type} (pass whole : Report α) : Prop where
  journal : ∀ {β : Type} {look : Event → Option β}, Attentive look →
    pass.journal.view look <+: whole.journal.view look
  contents : Write.Truncates pass.contents whole.contents
  complete : ∀ a, pass.result = .ok a → whole.result = .ok a ∧ pass.contents = whole.contents ∧
    ∀ stream ∈ pass.streams.toList, stream.Completed

theorem Stage.contents_abandon {α : Type} (stage : Stage) (result : Except Error α) :
    Report.contents ⟨result, stage.abandon.journal, stage.abandon.streams⟩ = stage.written :=
  stage.written_abandon

/-- Of one script played on sinks that may fail and on sinks that do not. -/
theorem Script.play_truncates {α : Type} (first : Setup) {second : Setup} (hsecond : second.Sound)
    (hcapacity : first.capacity = second.capacity) (hdebug : first.debug = second.debug)
    {script : Script α} (horderly : Orderly false false script) (before : List Event) :
    (script.play first before).Truncates (script.play second before) := by
  have hsound := Stage.sound_empty before
  obtain ⟨last, hlast, hend⟩ := horderly
  obtain ⟨later', hplay', hlater', -, -⟩ := Stage.playAll_sound hsecond script hsound hlast
  obtain ⟨failure, hresult, htrails, -⟩ :=
    Stage.playAll_trails hsecond hcapacity hdebug script hsound.alongside hsound hlast
  have hcompleted : ∀ stream ∈ ((Stage.empty.log before).playAll first script).1.streams.toList,
      stream.Completed := Stage.playAll_completed (List.forall_mem_nil _) script
  unfold Script.play
  rw [hplay'] at htrails ⊢
  cases hplay : (Stage.empty.log before).playAll first script with | mk later result
  rw [hplay] at hresult htrails hcompleted
  refine ⟨fun hlook => ?_, ?_, fun a hok => ?_⟩
  · simp only [Stage.journal_abandon]
    exact htrails.isBehind.journal hlook
  · rw [Stage.contents_abandon, Stage.contents_abandon]
    exact htrails.isBehind.written
  · change result = .ok a at hok
    cases htrails with
    | behind error _ => cases hok.symm.trans hresult
    | alongside halong =>
      have houtcome : script.outcome = .ok a := hresult.symm.trans hok
      -- no file is open at the end of a pass that ends well
      obtain rfl := hend a houtcome
      have habandon : later.abandon = later := by
        unfold Stage.abandon
        rw [halong.current_eq_none hlater'.current_eq_none]
      refine ⟨houtcome, ?_, ?_⟩
      · rw [Stage.contents_abandon, Stage.contents_abandon, halong.written_eq]
      · show ∀ stream ∈ later.abandon.streams.toList, _
        rw [habandon]
        exact hcompleted

end ByteLayout.Write

namespace ByteLayout

open Write

/-- **A failure of a sink only truncates.** Compared with the pass of the same layout, provider and
options whose sinks never fail, whatever the sinks do: the files opened, the callbacks made and the
bytes of each file come first in those of the other pass. If the pass ends well, so does the other;
the files are the same, everything was handed over, and every sink was flushed and shut down. -/
theorem Schema.write_truncated (schema : Schema) (provider : Provider) (options : Options)
    (opener : SinkOpener) {faultless : SinkOpener} (h : faultless.NeverFails) :
    let pass := schema.write provider options opener
    let whole := schema.write provider options faultless
    pass.journal.openings <+: whole.journal.openings ∧
      pass.journal.calls <+: whole.journal.calls ∧
      Truncates pass.contents whole.contents ∧
      ∀ record, pass.result = .ok record → whole.result = .ok record ∧
        pass.contents = whole.contents ∧ ∀ stream ∈ pass.streams.toList, stream.Completed := by
  intro pass whole
  have htruncates : pass.Truncates whole :=
    Script.play_truncates ⟨opener, options.clamped.bufferSize, options.debug⟩
      (sound_setup h options) rfl rfl (schema.writeScript_orderly provider options)
      (options.warnings .write)
  exact ⟨htruncates.journal attentive_opened?, htruncates.journal attentive_call?,
    htruncates.contents, htruncates.complete⟩

/-- A text behind its length, into a sink that accepts three bytes, one at a time, and then
fails. -/
theorem Schema.write_truncated_greeting :
    let text := Node.ofKind (.text .utf8)
    let greeting := ((Node.ofKind (.int .u16)).named "greeting").withString text
    let schema : Schema := ⟨.ofKind (.order .big [greeting]), .root, rfl⟩
    let provider := Provider.record [("greeting", .value (.string "Hello"))]
    let options : Options := { path := "greeting.bin", bufferSize := 64 }
    let pass := schema.write provider options fun _ _ => .ok
      { write := fun before _ =>
          if before < 3 then .accepted 1 else .failed ⟨"StorageFull", "no space"⟩ }
    let whole := schema.write provider options fun _ _ => .ok .faultless
    pass.journal.openings <+: whole.journal.openings ∧
      pass.journal.calls <+: whole.journal.calls ∧
      Truncates pass.contents whole.contents ∧
      ∀ record, pass.result = .ok record → whole.result = .ok record ∧
        pass.contents = whole.contents ∧ ∀ stream ∈ pass.streams.toList, stream.Completed :=
  Schema.write_truncated _ _ _ _ SinkOpener.neverFails_faultless

end ByteLayout
