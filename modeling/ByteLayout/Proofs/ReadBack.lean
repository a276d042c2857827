import ByteLayout.Proofs.Agreement
import ByteLayout.Proofs.Answering
import ByteLayout.Proofs.Fields
import ByteLayout.Proofs.Playing
import ByteLayout.Storage

/-!
# Reading back what was written

**Theorem (`Schema.read_written`).** If a write pass ends well, a read pass of the same layout over
its files ends well, with the record that the write pass kept. Both passes show the callbacks that
pick nodes the same contexts in the same order and announce the same fields at the same offsets, and
every file is read to its last byte.

Three things are needed for that. The layout has no custom nodes. No two files have the same path,
else the later one replaces the earlier. And what the write pass found in its provider is faithful:
every float is one that its kind represents, and every lazy sequence has as many items as it
declares.
-/

namespace ByteLayout

/-! ## Layouts without custom nodes -/

namespace Kind

/-- Whether the engine itself knows how fields of the kind are written and read. -/
def BuiltIn : Kind → Prop
  | .custom _ => False
  | _ => True

theorem BuiltIn.retraceable {kind : Kind} (h : kind.BuiltIn) : kind.Retraceable True := by
  cases kind with
  | custom codec => exact h
  | _ => trivial

end Kind

namespace Node

variable {P Q : Kind → Prop}

mutual

theorem Every.imp (h : ∀ kind, P kind → Q kind) : ∀ node : Node, node.Every P → node.Every Q
  | .mk kind _ _ payload => by
    rintro ⟨hkind, hpayload, hbelow⟩
    exact ⟨h kind hkind, EveryPayload.imp h payload hpayload, EveryKind.imp h kind hbelow⟩
termination_by structural node => node

theorem EveryPayload.imp (h : ∀ kind, P kind → Q kind) :
    ∀ payload : Payload, EveryPayload P payload → EveryPayload Q payload
  | .none => fun _ => trivial
  | .text node => Every.imp h node
  | .sequence elements => EveryAll.imp h elements
termination_by structural payload => payload

theorem EveryKind.imp (h : ∀ kind, P kind → Q kind) :
    ∀ kind : Kind, EveryKind P kind → EveryKind Q kind
  | .order _ children => EveryAll.imp h children
  | .directory _ children => EveryAll.imp h children
  | .file _ children => EveryAll.imp h children
  | .group children => EveryAll.imp h children
  | .select choose => fun hbelow context => EveryNoted.imp h (choose context) (hbelow context)
  | .custom _ => fun _ => trivial
  | .text _ => fun _ => trivial
  | .int _ => fun _ => trivial
  | .float _ => fun _ => trivial
termination_by structural kind => kind

theorem EveryNoted.imp (h : ∀ kind, P kind → Q kind) :
    ∀ noted : Noted Node, EveryNoted P noted → EveryNoted Q noted
  | ⟨node, _⟩ => Every.imp h node
termination_by structural noted => noted

theorem EveryAll.imp (h : ∀ kind, P kind → Q kind) :
    ∀ nodes : List Node, EveryAll P nodes → EveryAll Q nodes
  | [] => fun _ => trivial
  | node :: rest => fun hnodes => ⟨Every.imp h node hnodes.1, EveryAll.imp h rest hnodes.2⟩
termination_by structural nodes => nodes

end

end Node

/-! ## The journal of a write pass -/

namespace Write

theorem Step.mem_shown {debug : Bool} {event : Event} {steps : List Step}
    (h : .record event ∈ steps) (offset : Nat) : event ∈ Step.shown debug offset steps := by
  induction steps generalizing offset with
  | nil => cases h
  | cons step rest ih =>
    rcases List.mem_cons.mp h with heq | hrest
    · rw [← heq, Step.shown]
      exact List.mem_cons_self
    · cases step with
      | record other => exact List.mem_cons_of_mem _ (ih hrest offset)
      | openFile path => exact List.mem_cons_of_mem _ (ih hrest 0)
      | field path kind => exact List.mem_cons_of_mem _ (ih hrest offset)
      | scalar bytes => exact ih hrest _
      | payload bytes => exact ih hrest _
      | closeFile path => exact ih hrest 0

theorem Step.mem_of_shown {debug : Bool} {event : Event} {steps : List Step} {offset : Nat}
    (h : event ∈ Step.shown debug offset steps) (hfound : event.found? = some event) :
    .record event ∈ steps := by
  induction steps generalizing offset with
  | nil => cases h
  | cons step rest ih =>
    refine List.mem_cons.mpr ?_
    cases step with
    | record other =>
      rcases List.mem_cons.mp h with rfl | hrest
      · exact .inl rfl
      · exact .inr (ih hrest)
    | openFile path =>
      rcases List.mem_cons.mp h with rfl | hrest
      · cases hfound
      · exact .inr (ih hrest)
    | field path kind =>
      rcases List.mem_cons.mp h with rfl | hrest
      · cases hfound
      · exact .inr (ih hrest)
    | scalar bytes => exact .inr (ih h)
    | payload bytes => exact .inr (ih h)
    | closeFile path => exact .inr (ih h)

theorem faithful_of_found {event : Event} (h : event.found? = some event → event.Faithful) :
    event.Faithful := by
  cases event with
  | resolved path kind value => exact h rfl
  | generated path count length => exact h rfl
  | _ => trivial

theorem found?_eq_some {event found : Event} (h : event.found? = some found) : event = found := by
  cases event with
  | resolved path kind value => exact Option.some.inj h
  | generated path count length => exact Option.some.inj h
  | _ => cases h

theorem faithful_resolved_int (path : String) (kind : IntKind) (value : Value) :
    (Event.resolved path kind.label value).Faithful := by
  intro float h
  cases kind <;> cases float <;> exact absurd h (by decide)

section

variable {α : Type} {script : Script α} {debug : Bool} {journal : Journal}
  (hview : journal.view Event.found? =
    (Step.shown debug 0 script.steps).filterMap Event.found?)

include hview

/-- A script is faithful if the journal of its pass is. -/
theorem Script.faithful_of_journal (h : ∀ event ∈ journal.toList, event.Faithful) :
    script.Faithful := by
  intro step hstep
  cases step with
  | record event =>
    refine faithful_of_found fun hfound => h event ?_
    have hshown : event ∈ journal.view Event.found? := by
      rw [hview]
      exact List.mem_filterMap.mpr ⟨event, Step.mem_shown hstep 0, hfound⟩
    obtain ⟨shown, hmem, hsame⟩ := List.mem_filterMap.mp hshown
    exact found?_eq_some hsame ▸ hmem
  | _ => trivial

/-- The journal of a pass is faithful if its script is. -/
theorem Script.faithful_journal (h : script.Faithful) :
    ∀ event ∈ journal.toList, event.Faithful := by
  intro event hevent
  refine faithful_of_found fun hfound => ?_
  have hshown : event ∈ journal.view Event.found? := List.mem_filterMap.mpr ⟨event, hevent, hfound⟩
  rw [hview] at hshown
  obtain ⟨shown, hmem, hsame⟩ := List.mem_filterMap.mp hshown
  obtain rfl := found?_eq_some hsame
  exact h _ (Step.mem_of_shown hmem hfound)

end

end Write

/-! ## Both passes -/

/-- Whether an opener hands out files by their paths, from sources that do not fail. -/
def Read.SourceOpener.HandsOut (opener : Read.SourceOpener) (files : Fields (List UInt8)) : Prop :=
  ∀ before path bytes, Fields.get? files path = some bytes →
    ∃ behaviour, opener before path = .ok behaviour ∧ behaviour.Generous ∧ behaviour.data = bytes

open Write Read

section

variable {schema : Schema} {provider : Provider} {options : Options} {opener : SinkOpener}
  (hsinks : opener.NeverFails)

include hsinks

/-- The result of a write pass is that of its script. -/
theorem Schema.write_result :
    (schema.write provider options opener).result =
      (schema.writeScript provider options).outcome := by
  obtain ⟨last, hlast, -⟩ := schema.writeScript_orderly provider options
  obtain ⟨-, -, -, hresult, -⟩ := Script.play_sound (sound_setup hsinks options)
    (schema.writeScript provider options) (options.warnings .write) hlast
  exact hresult

/-- The journal of a write pass shows what the steps of its script say. -/
theorem Schema.view_write {α : Type} {look : Event → Option α} (hlook : Attentive look) :
    (schema.write provider options opener).journal.view look =
      (Step.shown options.debug 0 (schema.writeScript provider options).steps).filterMap look := by
  obtain ⟨last, hlast, -⟩ := schema.writeScript_orderly provider options
  obtain ⟨-, -, -, -, -, hshown⟩ := Script.play_sound (sound_setup hsinks options)
    (schema.writeScript provider options) (options.warnings .write) hlast
  exact (hshown hlook).trans (by rw [Options.filterMap_warnings hlook, List.nil_append])

/-- The files of a write pass that ends well are those of its script. -/
theorem Schema.contents_write {record : Fields Value}
    (hok : (schema.writeScript provider options).outcome = .ok record) :
    (schema.write provider options opener).contents =
      Step.files [] (schema.writeScript provider options).steps :=
  Script.contents_play (sound_setup hsinks options) _ _
    (schema.writeScript_orderly provider options) hok

/-- The journal of a write pass is faithful exactly if its script is. -/
theorem Schema.faithful_write_iff :
    (∀ event ∈ (schema.write provider options opener).journal.toList, event.Faithful) ↔
      (schema.writeScript provider options).Faithful := by
  have hview : (schema.write provider options opener).journal.view Event.found? = _ :=
    Schema.view_write hsinks attentive_found?
  exact ⟨Script.faithful_of_journal hview, Script.faithful_journal hview⟩

end

/-- A read pass over the files of a write pass ends with the record that was kept, shows the same
to every impartial look, and reads the files to their last bytes. -/
theorem Schema.answer_written {schema : Schema} {provider : Provider} {writing reading : Options}
    {opener : SinkOpener} {source : SourceOpener} {record : Fields Value}
    (hbuiltIn : schema.root.Every Kind.BuiltIn) (hsinks : opener.NeverFails)
    (hok : (schema.write provider writing opener).result = .ok record)
    (hpaths : ((schema.write provider writing opener).contents.map Prod.fst).Nodup)
    (hfaithful : ∀ event ∈ (schema.write provider writing opener).journal.toList,
      event.Faithful)
    (hpath : reading.path = writing.path) (huser : reading.user = writing.user)
    (hsource : source.HandsOut (Fields.ofList (schema.write provider writing opener).contents)) :
    let written := schema.write provider writing opener
    let read := schema.read none reading source
    read.result = .ok record ∧
      (∀ {α : Type} {look : Event → Option α}, Impartial look →
        read.journal.view look = written.journal.view look) ∧
      read.streams.toList.map (fun stream => (stream.path, stream.position)) =
        written.contents.map fun file => (file.1, file.2.length) := by
  intro written read
  have houtcome := (Schema.write_result hsinks).symm.trans hok
  have hscript := (Schema.faithful_write_iff hsinks).mp hfaithful
  have hcontents := Schema.contents_write hsinks houtcome
  obtain ⟨last, hlast, hend⟩ := schema.writeScript_orderly provider writing
  obtain rfl := hend record houtcome
  have hfollows := schema.readPlan_follows provider (fun _ => hpath) (fun _ => huser)
    (.inl trivial) (Node.Every.imp (fun _ => Kind.BuiltIn.retraceable) schema.root hbuiltIn)
  have hserves : source.Serves True
      (Step.files [] (schema.writeScript provider writing).steps) := by
    intro before path other bytes hfile hsame
    rw [hsame trivial]
    refine hsource before path bytes (Fields.get?_ofList_of_mem hpaths ?_)
    rw [hcontents]
    exact hfile
  obtain ⟨hresult, hspans, hforetold⟩ := Plan.answer_retraces (hfollows record houtcome hscript)
    { opener := source, chunk := reading.clamped.bufferSize, debug := reading.debug }
    (reading.warnings .read) writing.debug hlast hserves
  refine ⟨hresult, fun hlook => ?_, (hspans trivial).trans (by rw [hcontents])⟩
  refine (hforetold trivial hlook).trans ?_
  rw [Options.filterMap_warnings hlook.quiet, List.nil_append]
  exact (Schema.view_write hsinks hlook.quiet).symm

/-- **A read pass finds what a write pass wrote.** -/
theorem Schema.read_written (schema : Schema) (provider : Provider) (writing reading : Options)
    {opener : SinkOpener} {source : SourceOpener} {record : Fields Value}
    (hbuiltIn : schema.root.Every Kind.BuiltIn) (hsinks : opener.NeverFails)
    (hok : (schema.write provider writing opener).result = .ok record)
    (hpaths : ((schema.write provider writing opener).contents.map Prod.fst).Nodup)
    (hfaithful : ∀ event ∈ (schema.write provider writing opener).journal.toList,
      event.Faithful)
    (hpath : reading.path = writing.path) (huser : reading.user = writing.user)
    (hsource : source.HandsOut (Fields.ofList (schema.write provider writing opener).contents)) :
    let written := schema.write provider writing opener
    let read := schema.read none reading source
    read.result = .ok record ∧
      read.journal.selects = written.journal.selects ∧
      read.journal.fields = written.journal.fields ∧
      read.streams.toList.map (fun stream => (stream.path, stream.position)) =
        written.contents.map fun file => (file.1, file.2.length) := by
  obtain ⟨hresult, hview, hspans⟩ := Schema.answer_written hbuiltIn hsinks hok hpaths hfaithful
    hpath huser hsource
  exact ⟨hresult, hview impartial_select?, hview impartial_field?, hspans⟩

/-! ## A tag that says what follows -/

/-- A byte with a name. -/
def byteField (name : String) : Node := (Node.ofKind (.int .u8)).named name

/-- A file with a tag and, if it is one, a byte, and otherwise a double. -/
def tagged : Schema :=
  ⟨.ofKind (.order .big [.ofKind (.file "data" [byteField "tag",
    .ofKind (.select fun context =>
      match Fields.get? context.record "tag" with
      | some (.number (.int 1)) => ⟨byteField "value", []⟩
      | _ => ⟨(Node.ofKind (.float .f64)).named "value", []⟩)])]), .root, rfl⟩

def taggedData : Provider :=
  .record [("data", .record [("tag", .value (.int 1)), ("value", .value (.int 7))])]

def taggedOptions : Options := { path := "out", bufferSize := 16 }

theorem tagged_outcome : (tagged.writeScript taggedData taggedOptions).outcome =
    .ok [("tag", .int 1), ("value", .int 7)] := rfl

theorem tagged_faithful : (tagged.writeScript taggedData taggedOptions).Faithful := by
  obtain ⟨file, tag, value, context, hsteps⟩ : ∃ file tag value context,
      (tagged.writeScript taggedData taggedOptions).steps =
        [.record (.trace (.opening file)), .openFile file,
          .record (.resolved tag IntKind.u8.label (.int 1)), .field tag "U8", .scalar [1],
          .record (.call (.select context)),
          .record (.resolved value IntKind.u8.label (.int 7)), .field value "U8", .scalar [7],
          .closeFile file] := ⟨_, _, _, _, rfl⟩
  intro step hstep
  rw [hsteps] at hstep
  cases step with
  | record event =>
    simp only [List.mem_cons, Step.record.injEq, reduceCtorEq, List.not_mem_nil, or_false,
      false_or] at hstep
    rcases hstep with rfl | rfl | rfl | rfl
    · trivial
    · exact faithful_resolved_int tag .u8 (.int 1)
    · trivial
    · exact faithful_resolved_int value .u8 (.int 7)
  | _ => trivial

/-- The source of every file that was written; other files are empty. -/
def sourceOf (files : List (String × List UInt8)) : SourceOpener := fun _ path =>
  .ok (.ofBytes ((Fields.get? (Fields.ofList files) path).getD []))

theorem handsOut_sourceOf (files : List (String × List UInt8)) :
    (sourceOf files).HandsOut (Fields.ofList files) := by
  intro before path bytes h
  refine ⟨_, rfl, SourceBehaviour.generous_ofBytes _, ?_⟩
  rw [h]
  rfl

theorem tagged_builtIn : tagged.root.Every Kind.BuiltIn := by
  refine ⟨trivial, trivial, ⟨trivial, trivial, ⟨trivial, trivial, trivial⟩,
    ⟨trivial, trivial, fun context => ?_⟩, trivial⟩, trivial⟩
  dsimp only
  split <;> exact ⟨trivial, trivial, trivial⟩

theorem tagged_paths :
    ((tagged.write taggedData taggedOptions fun _ _ => .ok .faultless).contents.map
      Prod.fst).Nodup := by
  obtain ⟨file, hfiles⟩ : ∃ file,
      Step.files [] (tagged.writeScript taggedData taggedOptions).steps = [(file, [1, 7])] :=
    ⟨_, rfl⟩
  rw [Schema.contents_write SinkOpener.neverFails_faultless tagged_outcome, hfiles]
  exact List.pairwise_singleton _ _

theorem Schema.read_written_tagged :
    let written := tagged.write taggedData taggedOptions fun _ _ => .ok .faultless
    let read := tagged.read none taggedOptions (sourceOf written.contents)
    read.result = .ok [("tag", .int 1), ("value", .int 7)] ∧
      read.journal.selects = written.journal.selects ∧
      read.journal.fields = written.journal.fields ∧
      read.streams.toList.map (fun stream => (stream.path, stream.position)) =
        written.contents.map fun file => (file.1, file.2.length) := by
  have hsinks := SinkOpener.neverFails_faultless
  exact Schema.read_written tagged taggedData taggedOptions taggedOptions tagged_builtIn hsinks
    ((Schema.write_result hsinks).trans tagged_outcome) tagged_paths
    ((Schema.faithful_write_iff hsinks).mpr tagged_faithful) rfl rfl (handsOut_sourceOf _)

end ByteLayout
