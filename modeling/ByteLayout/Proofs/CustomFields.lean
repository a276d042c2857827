import ByteLayout.Proofs.Pieces
import ByteLayout.Proofs.Puts

/-!
# Custom fields

The encoder of a custom field builds its bytes before anything is written, and the engine copies
them into the file that is open. So an encoder that fails leaves the file as it was, and one that
does not adds what it put, and nothing else.

A decoder that comes to the field in that file, in whatever read pass, gets what was put
(`Read.GetsBack`).

**Theorem (`Schema.puts_got`).** What a custom encoder puts, a custom decoder gets.
-/

namespace ByteLayout

namespace Write

variable {α β : Type}

/-- What sinks that were finished have received is what their lives say. -/
theorem Life.map_file_eq {lives : List Life} {streams : List WriteStream}
    (h : List.Forall₂ Life.Of lives streams) (hfinished : ∀ life ∈ lives, life.ending = .finished) :
    lives.map Life.file = streams.map fun stream => (stream.path, stream.sink.data.toList) := by
  induction h with
  | nil => rfl
  | @cons life stream lives streams hof _ ih =>
    obtain ⟨hlife, hlives⟩ := List.forall_mem_cons.mp hfinished
    have hdata := (hof.complete (by rw [hlife]; exact nofun)).1
    rw [List.map_cons, List.map_cons, ih hlives, hof.path, hdata]
    rfl

/-! ## Writing a custom field -/

namespace Pass

variable (pass : Pass) (codec : Codec) (kind : String) (name : Option String)
  (default : Option Value) (scope : Scope) (input : Input) (record : Fields Value)

/-- Looks up the value of a custom field and encodes it. -/
def encoded : Script (Value × Except Fault (List UInt8)) := do
  let order ← .ofExcept (scope.fieldOrder kind)
  let given ← pass.literal name scope input record
  let value := (given.or default).getD .null
  let context := scope.codecContext order pass.user record
  let bytes ← .called (.encode value context) (codec.encode context value).run
  return (value, bytes)

/-- Announces a custom field that is encoded, and writes its bytes. -/
def copied : Value × Except Fault (List UInt8) → Script Kept
  | (_, .error fault) => .fail (fault.atField scope.trail)
  | (value, .ok bytes) => do
    .step (.field scope.trail kind)
    .step (.payload bytes)
    return keep name record value

theorem custom_eq : pass.custom codec kind name default scope input record =
    pass.encoded codec kind name default scope input record >>= copied kind name scope record := by
  unfold custom encoded
  simp only [Script.bind_assoc]
  refine congrArg _ (funext fun order => congrArg _ (funext fun given =>
    congrArg _ (funext fun bytes => ?_)))
  cases bytes <;> rfl

theorem silent_encoded :
    (pass.encoded codec kind name default scope input record).Silent := by
  refine (Script.silent_of_no_steps rfl).bind fun order _ => ?_
  refine (pass.silent_literal name scope input record).bind fun given _ => ?_
  exact (Script.silent_called ⟨rfl, rfl⟩ _).bind fun _ _ => Script.silent_of_no_steps rfl

variable {pass codec kind name default scope input record}

theorem outcome_encoded {order : ByteOrder} {given : Option Value}
    {result : Except Fault (List UInt8)} (horder : scope.fieldOrder kind = .ok order)
    (hgiven : (pass.literal name scope input record).outcome = .ok given)
    (hresult : (codec.encode (scope.codecContext order pass.user record)
      ((given.or default).getD .null)).run.value = result) :
    (pass.encoded codec kind name default scope input record).outcome =
      .ok ((given.or default).getD .null, result) := by
  unfold encoded
  rw [Script.outcome_bind_of_ok ((Script.outcome_ofExcept _).trans horder),
    Script.outcome_bind_of_ok hgiven, Script.outcome_bind_of_ok (Script.outcome_called _ _),
    hresult]
  rfl

/-- A field that is encoded is announced, and its bytes are written. -/
theorem custom_encoded {order : ByteOrder} {given : Option Value} {bytes : List UInt8}
    (horder : scope.fieldOrder kind = .ok order)
    (hgiven : (pass.literal name scope input record).outcome = .ok given)
    (hbytes : (codec.encode (scope.codecContext order pass.user record)
      ((given.or default).getD .null)).run.value = .ok bytes) :
    let script := pass.custom codec kind name default scope input record
    script.outcome = .ok (keep name record ((given.or default).getD .null)) ∧
      script.steps = (pass.encoded codec kind name default scope input record).steps ++
        [.field scope.trail kind, .payload bytes] := by
  have hencoded := outcome_encoded horder hgiven hbytes
  intro script
  have hscript : script = pass.encoded codec kind name default scope input record >>=
      copied kind name scope record := pass.custom_eq codec kind name default scope input record
  rw [hscript, Script.outcome_bind_of_ok hencoded, Script.steps_bind_of_ok hencoded]
  exact ⟨rfl, rfl⟩

/-- These are all bytes it writes, and it writes them in a file. -/
theorem custom_content {order : ByteOrder} {given : Option Value} {bytes : List UInt8}
    (horder : scope.fieldOrder kind = .ok order)
    (hgiven : (pass.literal name scope input record).outcome = .ok given)
    (hbytes : (codec.encode (scope.codecContext order pass.user record)
      ((given.or default).getD .null)).run.value = .ok bytes) :
    let script := pass.custom codec kind name default scope input record
    Step.content [] script.steps = bytes ∧
      ∀ inFile last, Step.nextAll inFile script.steps = some last → inFile = true := by
  have hsilent := pass.silent_encoded codec kind name default scope input record
  intro script
  obtain ⟨-, hsteps⟩ : _ ∧ script.steps = _ := custom_encoded horder hgiven hbytes
  rw [hsteps]
  refine ⟨?_, fun inFile last hlast => ?_⟩
  · rw [Step.content_silent hsilent]
    exact List.append_nil bytes
  · -- the field is announced, which is in order only in a file
    rw [Step.nextAll_append _ (Script.nextAll_silent hsilent)] at hlast
    cases inFile with
    | true => rfl
    | false => cases hlast

end Pass

namespace Stage

variable {setup : Setup} {stage later : Stage} {lives : List Life} {offers : List Nat}
  {inFile last : Bool}

/-- What only writes events down leaves all else as it is. -/
theorem playAll_silent_eq (setup : Setup) {script : Script α} (h : script.Silent) (stage : Stage) :
    ∃ events, stage.playAll setup script = (stage.log events, script.outcome) := by
  induction script generalizing stage with
  | done result => exact ⟨[], by rw [log_nil]; rfl⟩
  | ask step next ih =>
    obtain ⟨event, rfl, -⟩ := h step List.mem_cons_self
    obtain ⟨events, hplay⟩ :=
      ih () (fun other hother => h other (List.mem_cons_of_mem _ hother)) (stage.log [event])
    exact ⟨event :: events, hplay.trans (by rw [log_log]; rfl)⟩

/-- If an encoder fails, only events are written down. -/
theorem playAll_custom_error (setup : Setup) {pass : Pass} {codec : Codec} {kind : String}
    {name : Option String} {default : Option Value} {scope : Scope} {input : Input}
    {record : Fields Value} {order : ByteOrder} {given : Option Value} {fault : Fault}
    (horder : scope.fieldOrder kind = .ok order)
    (hgiven : (pass.literal name scope input record).outcome = .ok given)
    (hfault : (codec.encode (scope.codecContext order pass.user record)
      ((given.or default).getD .null)).run.value = .error fault) (stage : Stage) :
    ∃ events, stage.playAll setup (pass.custom codec kind name default scope input record) =
      (stage.log events, .error (fault.atField scope.trail)) := by
  have hencoded := Pass.outcome_encoded horder hgiven hfault
  obtain ⟨events, hplay⟩ := playAll_silent_eq setup
    (pass.silent_encoded codec kind name default scope input record) stage
  refine ⟨events, ?_⟩
  rw [Pass.custom_eq, playAll_bind, hplay, hencoded]
  rfl

/-- **On sinks that never fail** nothing is lost up to what is reached. -/
theorem Reaches.sound {part : Script β} {script : Script α}
    (h : Reaches setup later part stage script) (hsetup : setup.Sound) (hsound : stage.Sound inFile)
    (hlast : Step.nextAll inFile script.steps = some last) :
    ∃ inFile' last', later.Sound inFile' ∧ Step.nextAll inFile' part.steps = some last' := by
  induction h generalizing inFile last with
  | here => exact ⟨inFile, last, hsound, hlast⟩
  | first f _ ih =>
    rw [Script.bind_eq, Script.steps_bind] at hlast
    obtain ⟨between, hbetween, -⟩ := Step.exists_nextAll_of_append hlast
    exact ih hsound hbetween
  | @next _ _ stage between script f a hscript _ ih =>
    rw [Script.bind_eq, Script.steps_bind] at hlast
    obtain ⟨middle, hmiddle, hrest⟩ := Step.exists_nextAll_of_append hlast
    obtain ⟨played, hplay, hplayed, -⟩ := playAll_sound hsetup script hsound hmiddle
    obtain ⟨rfl, hok⟩ := Prod.mk.inj (hplay.symm.trans hscript)
    rw [hok] at hrest
    exact ih hplayed hrest

/-- **Whatever is reached adds its steps** to those of the whole script, behind what the files have
by then. -/
theorem Reaches.files_eq {part : Script β} {script : Script α}
    (h : Reaches setup later part stage script) (hcapacity : 8 ≤ setup.capacity)
    (hserves : stage.Serves inFile lives offers) (hown : script.Own)
    (hlast : Step.nextAll inFile script.steps = some last) :
    ∃ inFile' lives' offers' last', later.Serves inFile' lives' offers' ∧
      Step.nextAll inFile' part.steps = some last' ∧ ∃ more, ∀ rest,
        stage.files lives (script.steps ++ rest) =
          later.files lives' (part.steps ++ (more ++ rest)) := by
  induction h generalizing inFile lives offers last with
  | here => exact ⟨inFile, lives, offers, last, hserves, hlast, [], fun _ => rfl⟩
  | @first _ _ stage script f _ ih =>
    obtain ⟨behind, hbehind⟩ : ∃ behind, (script >>= f).steps = script.steps ++ behind :=
      ⟨_, Script.steps_bind script f⟩
    rw [hbehind] at hlast
    obtain ⟨between, hbetween, -⟩ := Step.exists_nextAll_of_append hlast
    obtain ⟨inFile', lives', offers', last', hlater, hpart, more, hfiles⟩ := ih hserves
      (fun step hstep => hown step (Script.mem_steps_bind.mpr (.inl hstep))) hbetween
    refine ⟨inFile', lives', offers', last', hlater, hpart, more ++ behind, fun rest => ?_⟩
    rw [hbehind, List.append_assoc, hfiles, List.append_assoc]
  | @next _ _ stage between script f a hscript _ ih =>
    have hfirst : script.Own := fun step hstep =>
      hown step (Script.mem_steps_bind.mpr (.inl hstep))
    rw [Script.bind_eq, Script.steps_bind] at hlast
    obtain ⟨middle, hmiddle, hrest⟩ := Step.exists_nextAll_of_append hlast
    obtain ⟨hok, lives₁, offers₁, hbetween, -⟩ :=
      hserves.playAll hcapacity hfirst hmiddle hscript []
    rw [hok] at hrest
    obtain ⟨inFile', lives', offers', last', hlater, hpart, more, hfiles⟩ := ih hbetween
      (fun step hstep => hown step (Script.mem_steps_bind.mpr (.inr ⟨a, hok, hstep⟩))) hrest
    refine ⟨inFile', lives', offers', last', hlater, hpart, more, fun rest => ?_⟩
    obtain ⟨-, lives₂, offers₂, hbetween', hplayed⟩ :=
      hserves.playAll hcapacity hfirst hmiddle hscript (Script.steps (f a) ++ rest)
    rw [Script.steps_bind_of_ok hok, List.append_assoc, ← hplayed, ← hfiles rest]
    unfold files
    rw [Life.map_file_eq hbetween'.streams hbetween'.finished,
      Life.map_file_eq hbetween.streams hbetween.finished]

/-- The file that is open has what was accepted, and what is still to come. -/
theorem Serves.mem_files (h : stage.Serves true lives offers) (steps : List Step) :
    ∃ path, (path, stage.accepted ++ Step.content [] steps) ∈ stage.files lives steps := by
  obtain ⟨stream, hcurrent, -⟩ := h.current_eq_some
  refine ⟨stream.path, ?_⟩
  unfold files accepted
  rw [hcurrent]
  exact List.mem_append_left _ (List.mem_append_right _ List.mem_cons_self)

end Stage

/-- A pass that ends well leaves the files of its script, whatever its sinks do. -/
theorem Report.Served.contents_eq {pass : Report α} {opener : SinkOpener} {script : Script α}
    {lives : List Life} (h : pass.Served opener script lives) {a : α} (hok : pass.result = .ok a) :
    pass.contents = Step.files [] script.steps := by
  obtain ⟨hlength, hclosed⟩ := h.closed hok
  refine List.ext_getElem? fun index => ?_
  unfold Report.contents
  rw [List.getElem?_map]
  cases hstream : pass.streams.toList[index]? with
  | none =>
    rw [List.getElem?_eq_none_iff, hlength] at hstream
    exact (List.getElem?_eq_none_iff.mpr hstream).symm
  | some stream => exact (h.content hstream (hclosed stream (List.mem_of_getElem? hstream))).symm

end Write

/-! ## Reading a custom field -/

namespace Read

/-- Whether puts are got back at an offset of a file. Let any pass that reads a file with these
bytes, in whatever portions they come in and whatever the size of its buffer, come to a custom field
at this offset, and let its decoder get the first of the puts and then do anything else. Then that
goes on with what was put, at the byte behind. -/
def GetsBack (data : List UInt8) (offset : Nat) (order : ByteOrder) (puts : List Put) : Prop :=
  ∀ (schema : Schema) (options : Options) (whole : Option Transform) (opener : SourceOpener)
    (stage : Stage) (pass : Pass) (site : Site) (scope : Scope) (transform : Option Transform)
    (record : Fields Value) (codec : Codec) (name : Option String) (default : Option Value)
    (payload : Payload) (stream : ReadStream),
    let node := Node.mk (.custom codec) name default payload
    let here := scope.field node.label
    let setup : Setup :=
      { opener, chunk := options.clamped.bufferSize, debug := options.debug }
    schema.ReadReaches options whole opener stage pass site scope transform record node →
    stage.current = some stream → stream.source.behaviour.Generous →
    stream.source.behaviour.data = data → stream.position = offset →
    here.fieldOrder node.kind.label = .ok order →
    ∀ before after, puts = before ++ after → ∀ f : List Put → Decoding Value,
      codec.decode (here.codecContext order pass.user record) =
        Get.all order (before.map Put.get) >>= f →
      ∃ (later : Stage) (moved : ReadStream),
        stage.follow setup (pass.walk site scope transform record node) =
            later.follow setup (do
              let value ← .decode here.trail (f before)
              pass.settle name here transform record value) ∧
          later.streams = stage.streams ∧ later.current = some moved ∧
          moved.position = offset + (before.map Put.width).sum ∧
          moved.unread = data.drop moved.position

theorem Stage.inPlace_empty (events : List Event) : (Stage.empty.log events).InPlace := nofun

/-- **Puts that are in a file are got back.** -/
theorem getsBack {data : List UInt8} {offset : Nat} {order : ByteOrder} {puts : List Put}
    (hputs : ∀ put ∈ puts, put.Holds)
    (hdata : ∃ rest, data.drop offset = Put.encodeAll order puts ++ rest) :
    GetsBack data offset order puts := by
  intro schema options whole opener stage pass site scope transform record codec name default
    payload stream node here setup hreaches hcurrent hgenerous hfile hposition horder before after
    hsplit f hdecode
  subst hfile hposition hsplit
  obtain ⟨rest, hrest⟩ := hdata
  obtain ⟨hsteady, hunread⟩ :=
    (hreaches.inPlace (Stage.inPlace_empty _)) stream hcurrent hgenerous
  rw [← hunread, Put.encodeAll_append, List.append_assoc] at hrest
  have hbegun : ∃ begun : Stage, begun.streams = stage.streams ∧ begun.current = some stream ∧
      stage.follow setup (pass.walk site scope transform record node) = begun.follow setup (do
        let value ← .decode here.trail (Get.all order (before.map Put.get) >>= f)
        pass.settle name here transform record value) := by
    refine ⟨(stage.log [.trace (.field .read setup.debug here.trail node.kind.label
      stage.offset)]).log [.call (.decode (here.codecContext order pass.user record))], rfl,
      hcurrent, ?_⟩
    show stage.follow setup (pass.custom codec node.kind.label name here transform record) = _
    unfold Pass.custom
    rw [horder, ← hdecode]
    rfl
  obtain ⟨begun, hstreams, hcurrent', hbegun⟩ := hbegun
  obtain ⟨later, hpasses, hfollow⟩ := Stage.follow_gets setup hcurrent' hsteady here.trail
    (fun put hput => hputs put (List.mem_append_left after hput)) hrest f
  obtain ⟨moved, hmoved, hmoves⟩ := hpasses.current stream hcurrent'
  have hposition : moved.position = stream.position + (before.map Put.width).sum := by
    rw [← Put.length_encodeAll order]
    exact hmoves.consumed
  refine ⟨later, moved, ?_, hpasses.streams.trans hstreams, hmoved, hposition, ?_⟩
  · rw [hbegun, Stage.follow_bind, hfollow, Stage.follow_bind]
  · rw [hposition, ← Put.length_encodeAll order, ← List.drop_drop, ← hunread, hmoves.unread,
      List.drop_left]

end Read

/-! ## Both passes -/

open Write

namespace Schema

variable {schema : Schema} {provider : Provider} {options : Options} {opener : SinkOpener}
  {stage : Stage} {pass : Pass} {visit : Visit}

/-- Until a visit nothing is lost on sinks that never fail. -/
theorem Visits.sound (h : schema.Visits provider options opener stage pass visit)
    (hsinks : opener.NeverFails) :
    ∃ inFile last, stage.Sound inFile ∧
      Step.nextAll inFile (pass.scriptAt visit).steps = some last := by
  obtain ⟨last, hlast, -⟩ := schema.writeScript_orderly provider options
  exact Stage.Reaches.sound h (sound_setup hsinks options) (Stage.sound_empty _) hlast

/-- What is written at a visit becomes part of the files of the whole pass. -/
theorem Visits.files_eq (h : schema.Visits provider options opener stage pass visit) :
    ∃ inFile lives offers last more, stage.Serves inFile lives offers ∧
      Step.nextAll inFile (pass.scriptAt visit).steps = some last ∧
      Step.files [] (schema.writeScript provider options).steps =
        stage.files lives ((pass.scriptAt visit).steps ++ more) := by
  have hbefore : (options.warnings .write).filterMap Event.handled? = [] := by
    unfold Options.warnings
    split <;> rfl
  obtain ⟨last, hlast, -⟩ := schema.writeScript_orderly provider options
  obtain ⟨inFile, lives, offers, last', hserves, hvisit, more, hfiles⟩ := Stage.Reaches.files_eq h
    (options.capacity_setup opener) (Stage.serves_empty _ hbefore)
    (schema.writeScript_closed Pass.own_closed provider options) hlast
  have hall := hfiles []
  rw [List.append_nil, List.append_nil] at hall
  exact ⟨inFile, lives, offers, last', more, hserves, hvisit, hall⟩

section

variable (hvisit : schema.Visits provider options opener stage pass visit) {codec : Codec}
  {name : Option String} {default : Option Value} {payload : Payload}
  (hnode : visit.node = .mk (.custom codec) name default payload) {order : ByteOrder}
  (horder : (visit.scope.field visit.node.label).fieldOrder visit.node.kind.label = .ok order)
  {given : Option Value}
  (hgiven : (pass.literal name (visit.scope.field visit.node.label) visit.input
    visit.record).outcome = .ok given)

include hvisit hnode horder hgiven

/-- **A custom field that can be encoded adds its bytes to the stream**, and nothing else. -/
theorem Visits.custom_written {bytes : List UInt8}
    (hbytes : (codec.encode ((visit.scope.field visit.node.label).codecContext order pass.user
      visit.record) ((given.or default).getD .null)).run.value = .ok bytes) :
    let value := (given.or default).getD .null
    let played := stage.playAll (options.setup opener) (pass.scriptAt visit)
    let report := schema.write provider options opener
    (opener.NeverFails → ∃ later, played = (later, .ok (keep name visit.record value))) ∧
      (∀ later kept, played = (later, .ok kept) → later.accepted = stage.accepted ++ bytes) ∧
      ∀ record, report.result = .ok record →
        ∃ file ∈ report.contents, stage.accepted ++ bytes <+: file.2 := by
  obtain ⟨site, scope, input, record, node⟩ := visit
  obtain rfl : node = .mk (.custom codec) name default payload := hnode
  intro value played report
  let visit : Visit := ⟨site, scope, input, record, .mk (.custom codec) name default payload⟩
  obtain ⟨houtcome, -⟩ : (pass.scriptAt visit).outcome = _ ∧ (pass.scriptAt visit).steps = _ :=
    Pass.custom_encoded horder hgiven hbytes
  obtain ⟨hcontent, hfile⟩ : Step.content [] (pass.scriptAt visit).steps = bytes ∧ _ :=
    Pass.custom_content horder hgiven hbytes
  have hinside : (pass.scriptAt visit).Inside :=
    (pass.custom_wholly name default _ input record codec payload).inside
  have hown : (pass.scriptAt visit).Own :=
    Pass.walk_closed pass.own_closed site trivial input record visit.node
  obtain ⟨inFile, lives, offers, last, more, hserves, hlast, hfiles⟩ := hvisit.files_eq
  obtain rfl := hfile inFile last hlast
  refine ⟨fun hsinks => ?_, fun later kept hplayed => ?_, fun result hok => ?_⟩
  · obtain ⟨_, _, hsound, hnext⟩ := hvisit.sound hsinks
    obtain ⟨later, hplayed, -⟩ :=
      Stage.playAll_sound (sound_setup hsinks options) (pass.scriptAt visit) hsound hnext
    exact ⟨later, hplayed.trans (congrArg _ houtcome)⟩
  · have haccepted := (hserves.accepted_playAll (options.capacity_setup opener) hown hinside hlast
      hplayed).2
    rwa [hcontent] at haccepted
  · obtain ⟨lives, hserved⟩ := schema.write_served provider options opener
    obtain ⟨path, hmem⟩ := hserves.mem_files ((pass.scriptAt visit).steps ++ more)
    rw [Step.content_append_of_inside _ hinside, hcontent, ← hfiles,
      ← hserved.contents_eq hok] at hmem
    refine ⟨_, hmem, ?_⟩
    rw [← List.append_assoc]
    exact List.prefix_append _ _

/-- **If an encoder fails, nothing of it reaches the stream.** -/
theorem Visits.custom_failed {fault : Fault}
    (hfault : (codec.encode ((visit.scope.field visit.node.label).codecContext order pass.user
      visit.record) ((given.or default).getD .null)).run.value = .error fault) :
    let here := visit.scope.field visit.node.label
    let played := stage.playAll (options.setup opener) (pass.scriptAt visit)
    played.2 = .error (fault.atField here.trail) ∧ played.1.current = stage.current ∧
      played.1.streams = stage.streams ∧
      (schema.write provider options opener).result = .error (fault.atField here.trail) := by
  obtain ⟨site, scope, input, record, node⟩ := visit
  obtain rfl : node = .mk (.custom codec) name default payload := hnode
  intro here played
  obtain ⟨events, hplayed⟩ :=
    Stage.playAll_custom_error (options.setup opener) horder hgiven hfault stage
  have hfails := hvisit.fails hplayed
  rw [show played = _ from hplayed]
  exact ⟨rfl, rfl, rfl, hfails.1⟩

end

/-- **What a custom encoder puts, a custom decoder gets.** Let a write pass come to a custom field.
If its encoder fails, so does the pass, with the error of the encoder, and the stream is left as it
was. If the encoder ends as some puts do, the field adds to the stream what was put, one behind the
other, and nothing else; sinks that never fail take it; and if the pass ends well it is in one of
the files. In a read pass over a file that has it there, it is got back. -/
theorem puts_got (hvisit : schema.Visits provider options opener stage pass visit) {codec : Codec}
    {name : Option String} {default : Option Value} {payload : Payload}
    (hnode : visit.node = .mk (.custom codec) name default payload) {order : ByteOrder}
    (horder : (visit.scope.field visit.node.label).fieldOrder visit.node.kind.label = .ok order)
    {given : Option Value}
    (hgiven : (pass.literal name (visit.scope.field visit.node.label) visit.input
      visit.record).outcome = .ok given) :
    let here := visit.scope.field visit.node.label
    let value := (given.or default).getD .null
    let encoded := (codec.encode (here.codecContext order pass.user visit.record) value).run.value
    let played := stage.playAll (options.setup opener) (pass.scriptAt visit)
    let report := schema.write provider options opener
    (∀ fault, encoded = .error fault →
      played.2 = .error (fault.atField here.trail) ∧ played.1.current = stage.current ∧
        played.1.streams = stage.streams ∧ report.result = .error (fault.atField here.trail)) ∧
    ∀ puts, encoded = (Put.all order puts).run.value →
      let bytes := Put.encodeAll order puts
      (opener.NeverFails → ∃ later, played = (later, .ok (keep name visit.record value))) ∧
      (∀ later kept, played = (later, .ok kept) → later.accepted = stage.accepted ++ bytes) ∧
      (∀ record, report.result = .ok record →
        ∃ file ∈ report.contents, stage.accepted ++ bytes <+: file.2) ∧
      ((∀ put ∈ puts, put.Holds) → ∀ data, stage.accepted ++ bytes <+: data →
        Read.GetsBack data stage.accepted.length order puts) := by
  intro here value encoded played report
  refine ⟨fun fault hfault => hvisit.custom_failed hnode horder hgiven hfault, ?_⟩
  intro puts hputs bytes
  have hbytes : encoded = .ok bytes := hputs.trans (congrArg Noted.value (Put.run_all order puts))
  obtain ⟨hwrites, haccepted, hcontents⟩ := hvisit.custom_written hnode horder hgiven hbytes
  refine ⟨hwrites, haccepted, hcontents, fun hholds data hdata => ?_⟩
  obtain ⟨behind, rfl⟩ := hdata
  refine Read.getsBack hholds ⟨behind, ?_⟩
  rw [List.append_assoc, List.drop_left]

/-! ## A stamp -/

/-- An integer, a float that is not a number, and three bytes. -/
def stampPuts : List Put := [.int .i16 (-2), .float .f32 0x7fc00001, .raw [1, 2, 3]]

/-- Puts a stamp, but then fails if it is given nothing. Gets a stamp, and gives the number of its
parts. -/
def stamping : Codec where
  encode context value := do
    Put.all context.order stampPuts
    if value.isNull then Encoding.fail (.foreign "no stamp")
  decode context := do
    let puts ← Get.all context.order (stampPuts.map Put.get)
    return .int puts.length

/-- A field with a stamp. -/
def stampField : Node := (Node.ofKind (.custom stamping)).named "stamp"

/-- A stamp in big-endian order. -/
def stamped : Schema := ⟨.ofKind (.order .big [stampField]), .root, rfl⟩

/-- The field of a stamp, with what a pass is given for it. -/
def stampVisit (given : Value) : Visit where
  site := stamped.rootSite.below .child stamped.root
  scope := (Scope.single ("", "out")).withOrder .big
  input := .within (.record [("stamp", .value given)])
  record := []
  node := stampField

theorem stamped_visits (given : Value) : stamped.Visits (.record [("stamp", .value given)])
    taggedOptions (fun _ _ => .ok .faultless) columnStage ⟨.null, false⟩ (stampVisit given) := by
  refine Stage.Reaches.trans ?_ (root_reached rfl _)
  show Stage.Reaches _ _ _ _ (Pass.walk _ _ _ _ _ (.mk (.order .big [stampField]) _ _ _))
  rw [Pass.walk]
  refine .first _ ?_
  show Stage.Reaches _ _ _ _ (Pass.walkAll _ _ _ _ _ _ [stampField])
  rw [Pass.walkAll]
  exact .first _ .here

/-- A read pass over a stamp once its file is open. -/
def stampStage (source : SourceBehaviour) : Read.Stage where
  journal := #[.trace (.singleFile .read "out"), .trace (.opening (Path.resolve "" "out")),
    .opened (Path.resolve "" "out"), .trace (.readReady (Path.resolve "" "out") 16)]
  streams := #[]
  current := some (.create source 16 (Path.resolve "" "out"))

theorem stamped_reaches (source : SourceBehaviour) (given : Value) :
    stamped.ReadReaches taggedOptions none (fun _ _ => .ok source) (stampStage source)
      ⟨.null, false⟩ (stampVisit given).site (stampVisit given).scope none [] stampField := by
  unfold ReadReaches readPlan
  rw [if_pos (show stamped.fileCount = 0 from rfl),
    show splitTarget taggedOptions.path = _ from splitTarget_out]
  refine .next rfl ?_
  refine .next rfl ?_
  unfold Read.Pass.inFile
  refine .next rfl ?_
  refine .next rfl ?_
  refine .next rfl ?_
  refine .first _ ?_
  show Read.Stage.Reaches _ _ _ _
    (Read.Pass.walkAll _ _ _ _ _ [.mk (.order .big [stampField]) _ _ _])
  rw [Read.Pass.walkAll, Read.Pass.walk]
  refine .first _ (.first _ ?_)
  show Read.Stage.Reaches _ _ _ _ (Read.Pass.walkAll _ _ _ _ _ [stampField])
  rw [Read.Pass.walkAll]
  exact .first _ .here

/-- A stamp is written; with nothing to stamp its file stays empty; and it is got back from a source
that gives one byte at a time. -/
theorem puts_got_stamp :
    let bytes : List UInt8 := [255, 254, 127, 192, 0, 1, 1, 2, 3]
    let setup := taggedOptions.setup fun _ _ => .ok .faultless
    let played given := columnStage.playAll setup (Pass.scriptAt ⟨.null, false⟩ (stampVisit given))
    (∃ later kept, played (.int 1) = (later, .ok kept) ∧ later.accepted = bytes) ∧
    ((played .null).1.accepted = [] ∧ ∃ path, (played .null).2 = .error (.custom path "no stamp")) ∧
    let source : SourceBehaviour := { data := bytes ++ [4], portion := fun _ _ => 1 }
    let reading : Read.Setup := ⟨fun _ _ => .ok source, 16, false⟩
    let visit := stampVisit .null
    let here := visit.scope.field stampField.label
    ∃ (later : Read.Stage) (moved : ReadStream),
      (stampStage source).follow reading (Read.Pass.walk ⟨.null, false⟩ visit.site visit.scope none
        [] stampField) = later.follow reading (do
          let value ← .decode here.trail (pure (.int 3))
          Read.Pass.settle ⟨.null, false⟩ (some "stamp") here none [] value) ∧
      later.current = some moved ∧ moved.position = 9 ∧ moved.unread = [4] := by
  intro bytes setup played
  obtain ⟨-, hputs⟩ := puts_got (stamped_visits (.int 1)) rfl rfl rfl
  obtain ⟨hwrites, haccepted, -, hreads⟩ := hputs stampPuts rfl
  obtain ⟨hfails, -⟩ := puts_got (stamped_visits .null) rfl rfl rfl
  obtain ⟨herror, hcurrent, -⟩ := hfails _ rfl
  obtain ⟨later, hplayed⟩ := hwrites SinkOpener.neverFails_faultless
  refine ⟨⟨later, _, hplayed, haccepted _ _ hplayed⟩, ⟨?_, _, herror⟩, ?_⟩
  · unfold Stage.accepted
    rw [show (played .null).1.current = _ from hcurrent]
    rfl
  · intro source reading visit here
    have hholds : ∀ put ∈ stampPuts, put.Holds := by
      intro put hput
      simp only [stampPuts, List.mem_cons, List.not_mem_nil, or_false] at hput
      rcases hput with rfl | rfl | rfl
      · exact ⟨by decide, by decide⟩
      · exact (by decide : 0x7fc00001 < Nat.pow 256 4)
      · trivial
    obtain ⟨later, moved, hfollow, -, hmoved, hposition, hunread⟩ := hreads hholds (bytes ++ [4])
      (List.prefix_append bytes [4]) stamped taggedOptions none (fun _ _ => .ok source)
      (stampStage source) ⟨.null, false⟩ _ _ none [] stamping _ _ _ _ (stamped_reaches source .null)
      rfl ⟨rfl, fun _ _ _ => Nat.one_pos⟩ rfl rfl rfl stampPuts [] rfl _ rfl
    rw [hposition] at hunread
    exact ⟨later, moved, hfollow, hmoved, hposition, hunread⟩

end Schema

end ByteLayout
