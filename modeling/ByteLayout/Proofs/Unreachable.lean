import ByteLayout.FileTree
import ByteLayout.Proofs.Numbers
import ByteLayout.Proofs.StreamFaults

/-!
# Faults that are out of reach

The engines guard against faults of the library itself: against a text that is visited on its own,
against a number that no entry of a schema has, against a window that is too large for its buffer or
has not the width of its number, and against too few bytes where enough were waited for. In a pass
through an accepted layout, however its callbacks answer, none of these guards is ever needed
(`Schema.internal_unreachable`).

The pieces come from elsewhere: that scripts and plans do not fail with an internal error, and that
their numbers have the right width (`Schema.writeScript_regular`, `Schema.readPlan_regular`), that
streams add no such error (`Write.Stage.Roomy.playAll_fault`, `Read.Stage.answerAll_fault`), and
that no look-up fails (`Pass.IsWalk.follows`).
-/

namespace ByteLayout

namespace Schema

/-- Every number to which an entry is linked, up or down, has an entry. -/
def Linked (schema : Schema) : Prop :=
  ∀ id entry, schema.entryAt? id = some entry →
    ∀ link, link ∈ entry.links ∨ entry.parent = some link →
      ∃ linked, schema.entryAt? link = some linked

/-- No write pass through a schema runs into a fault of the library. -/
structure WritesFaultless (schema : Schema) (options : Options) : Prop where
  /-- A pass fails with no internal error but one that a codec made up when the pass called it. -/
  result : ∀ (provider : Provider) (opener : Write.SinkOpener), opener.External →
    ∀ error : Error, error.Internal →
      (schema.root.Every fun kind => ¬kind.MakesUp
        (fun call => .call call ∈ (schema.write provider options opener).journal) error) →
      (schema.write provider options opener).result ≠ .error error
  /-- A walk that looks up every number, in the table of its schema, finds an entry each time: what
  it would fail with makes no difference to it. -/
  numbers : ∀ lost : Error, (∃ walk, (schema.writePass options).IsWalk lost walk) ∧
    ∀ walk, (schema.writePass options).IsWalk lost walk → ∀ provider,
      schema.writeScriptBy options walk provider = schema.writeScript provider options
  /-- Each scalar has the width of the number that it is announced as. -/
  sized : ∀ provider, Write.Step.Sized (schema.writeScript provider options).steps
  /-- A buffer of the size of the pass has room for each of them. -/
  roomy : ∀ provider bytes, .scalar bytes ∈ (schema.writeScript provider options).steps →
    ∀ behaviour path, bytes.length ≤
      (WriteStream.create behaviour options.clamped.bufferSize path).capacity

/-- No read pass through a schema runs into a fault of the library. -/
structure ReadsFaultless (schema : Schema) (options : Options) : Prop where
  /-- A pass fails with no internal error but one that a codec made up when the pass called it. -/
  result : ∀ (transform : Option Transform) (opener : Read.SourceOpener), opener.External →
    ∀ error : Error, error.Internal →
      (schema.root.Every fun kind => ¬kind.MakesUp
        (fun call => .call call ∈ (schema.read transform options opener).journal) error) →
      (schema.read transform options opener).result ≠ .error error
  /-- A walk that looks up every number, in the table of its schema, finds an entry each time: what
  it would fail with makes no difference to it. -/
  numbers : ∀ lost : Error, (∃ walk, (schema.readPass options).IsWalk lost walk) ∧
    ∀ walk, (schema.readPass options).IsWalk lost walk → ∀ transform,
      schema.readPlanBy options walk transform = schema.readPlan transform options
  /-- The bytes of a number are asked for in just its width. -/
  sized : ∀ transform,
    (schema.readPlan transform options).Regular (fun _ => False) fun _ => True

end Schema

/-! ## Streams -/

/-- What is given to be filled or was taken has the size that was asked for, and what was waited for
can be taken. -/
structure StreamsExact : Prop where
  windows : ∀ (stream : WriteStream) count window,
    (stream.reserve count).result = .ok window → window.length = count
  slices : ∀ (stream : ReadStream) count bytes,
    (stream.fetch count).result = .ok bytes → bytes.length = count
  taken : ∀ (stream : ReadStream) count, (stream.await count).result = .ok () →
    ∃ bytes, ((stream.await count).stream.take count).result = .ok bytes ∧ bytes.length = count

theorem streamsExact : StreamsExact where
  windows _ _ _ := WriteStream.length_reserve
  slices stream count := (stream.fetch_outcome count).2
  taken _ _ := ReadStream.take_of_await

/-! ## Files -/

namespace FileTree

/-- Files that cannot be made are reported as failures of their sinks. -/
theorem external_createAfter (tree : FileTree) : Write.SinkOpener.External tree.createAfter := by
  intro opened path error h
  unfold createAfter create at h
  dsimp only at h
  split at h
  · cases h
    exact .inl rfl
  · split at h
    · cases h
      exact .inl rfl
    · split at h
      · cases h
        exact .inl rfl
      · cases h

/-- Files that cannot be read are reported as failures of their sources. -/
theorem external_read (tree : FileTree) :
    Read.SourceOpener.External fun _ path => tree.read path := by
  intro opened path error h
  unfold read at h
  dsimp only at h
  split at h
  · split at h
    · cases h
    · cases h
    · cases h
      exact .inl rfl
  · split at h
    · cases h
      exact .inl rfl
    · split at h
      · cases h
      · cases h
        exact .inl rfl

end FileTree

/-! ## Passes -/

theorem Options.eight_le_clamped (options : Options) : 8 ≤ options.clamped.bufferSize :=
  Nat.le_trans (by decide) (Nat.le_max_right options.bufferSize minBufferSize)

namespace Schema

variable {schema : Schema} (hsite : schema.site.placement ≠ .payload)

theorem linked (schema : Schema) : schema.Linked := fun _ _ hentry _ => exists_of_linked hentry

include hsite

theorem writeScript_sized (provider : Provider) (options : Options) :
    Write.Step.Sized (schema.writeScript provider options).steps := by
  have hregular : Write.Script.Regular (fun _ => False) (fun _ => True)
      (schema.writeScript provider options) :=
    writeScript_regular hsite (fun _ => False.elim)
      (Node.every_of_forall (fun _ _ => False.elim) schema.root) provider options
  exact (hregular fun _ _ => trivial).sized

/-- A write pass ends in no internal error that no codec made up. -/
theorem write_ne_internal (options : Options) (provider : Provider) {opener : Write.SinkOpener}
    (hopener : opener.External) {error : Error} (herror : error.Internal)
    (hkinds : schema.root.Every fun kind => ¬kind.MakesUp
      (fun call => .call call ∈ (schema.write provider options opener).journal) error) :
    (schema.write provider options opener).result ≠ .error error := by
  set script := schema.writeScript provider options
  set setup : Write.Setup :=
    { opener, capacity := options.clamped.bufferSize, debug := options.debug }
  set start := Write.Stage.empty.log (options.warnings .write)
  have hreport : schema.write provider options opener =
    script.play setup (options.warnings .write) := rfl
  have hwidth : ∀ bytes, .scalar bytes ∈ script.steps → bytes.length ≤ 8 := fun _ =>
    (writeScript_sized hsite provider options).length_le
  intro hresult
  rw [hreport, Write.Script.result_play] at hresult
  rw [hreport, Write.Script.journal_play] at hkinds
  have hcapacity : 8 ≤ setup.capacity := options.eight_le_clamped
  have hstart : start.Roomy := nofun
  rcases hstart.playAll_fault hopener hcapacity hwidth with
    ⟨hevents, hplayed⟩ | ⟨failure, hexternal, hplayed⟩
  -- played to its end, the script has called nothing but what the journal shows
  · have hregular := writeScript_regular hsite (fun other (h : other = error) => h ▸ herror)
      (by simpa only [forall_eq] using hkinds) provider options
    exact (hregular fun call hcall => hevents _ hcall).avoids error (hplayed ▸ hresult) rfl
  -- cut short, it has failed with a sink
  · rw [hplayed] at hresult
    cases hresult
    exact herror.not_external hexternal

/-- A read pass ends in no internal error that no codec made up. -/
theorem read_ne_internal (options : Options) (transform : Option Transform)
    {opener : Read.SourceOpener} (hopener : opener.External) {error : Error}
    (herror : error.Internal)
    (hkinds : schema.root.Every fun kind => ¬kind.MakesUp
      (fun call => .call call ∈ (schema.read transform options opener).journal) error) :
    (schema.read transform options opener).result ≠ .error error := by
  set plan := schema.readPlan transform options
  set setup : Read.Setup :=
    { opener, chunk := options.clamped.bufferSize, debug := options.debug }
  have hreport : schema.read transform options opener =
    plan.answer setup (options.warnings .read) := rfl
  intro hresult
  rw [hreport, Read.Plan.result_answer] at hresult
  rw [hreport, Read.Plan.journal_answer] at hkinds
  have hregular := readPlan_regular hsite (fun other (h : other = error) => h ▸ herror)
    (by simpa only [forall_eq] using hkinds) transform options
  have hexternal : ∀ other, other = error → ¬other.External := fun _ h => h ▸ herror.not_external
  exact Read.Stage.answerAll_fault hopener hexternal hregular _ (fun _ hcall => hcall) hresult rfl

/-! ### Everything together -/

theorem writesFaultless (options : Options) : schema.WritesFaultless options where
  result provider _ hopener _ herror := write_ne_internal hsite options provider hopener herror
  numbers lost := by
    refine ⟨⟨_, (schema.writePass options).isWalk_byNumber lost⟩, fun walk hwalk provider => ?_⟩
    exact schema.writeScriptBy_eq options (hwalk.follows schema 0) provider
  sized provider := writeScript_sized hsite provider options
  roomy provider bytes hbytes behaviour path := by
    have hwidth := (writeScript_sized hsite provider options).length_le hbytes
    exact Nat.le_trans hwidth (Nat.le_trans options.eight_le_clamped (Nat.le_max_left _ _))

theorem readsFaultless (options : Options) : schema.ReadsFaultless options where
  result transform _ hopener _ herror := read_ne_internal hsite options transform hopener herror
  numbers lost := by
    refine ⟨⟨_, (schema.readPass options).isWalk_byNumber lost⟩, fun walk hwalk transform => ?_⟩
    exact schema.readPlanBy_eq options (hwalk.follows schema 0) transform
  sized transform := readPlan_regular hsite (fun _ => False.elim)
    (Node.every_of_forall (fun _ _ => False.elim) schema.root) transform options

omit hsite

/-- **Internal faults are out of reach** for every accepted layout, with whatever options. -/
theorem internal_unreachable {node : Node} (h : ofNode node = .ok schema) (options : Options) :
    schema.WritesFaultless options ∧ schema.ReadsFaultless options ∧
      (∀ table : Schema, table.Linked) ∧ StreamsExact := by
  obtain ⟨-, hroot⟩ := of_attachAt h
  have hsite : schema.site.placement ≠ .payload := by
    rw [hroot]
    exact nofun
  exact ⟨writesFaultless hsite options, readsFaultless hsite options, linked, streamsExact⟩

/-- A string, and a text on its own that is picked. -/
def pickedText : Node :=
  .ofKind (.file "a.bin" [.ofKind (.order .big
    [((Node.ofKind (.int .u8)).named "note").withString (.ofKind (.text .utf8)),
      .ofKind (.select fun _ => ⟨.ofKind (.text .utf8), []⟩)])])

theorem pickedText_every {P : Kind → Prop}
    (h : ∀ kind, (∀ codec, kind ≠ .custom codec) → P kind) : pickedText.Every P := by
  have htext : (Node.ofKind (.text .utf8)).Every P := ⟨h _ nofun, trivial, trivial⟩
  have hpicked : (Node.ofKind (.select fun _ => ⟨.ofKind (.text .utf8), []⟩)).Every P :=
    ⟨h _ nofun, trivial, fun _ => htext⟩
  exact ⟨h _ nofun, trivial, ⟨h _ nofun, trivial, ⟨h _ nofun, htext, trivial⟩, hpicked, trivial⟩,
    trivial⟩

theorem internal_unreachable_pickedText : ∃ schema, ofNode pickedText = .ok schema ∧
    (∀ provider kind path,
      (schema.write provider .forWriting FileTree.empty.createAfter).result ≠
        .error (.unexpectedNode kind path)) ∧
    ∀ transform kind path,
      (schema.read transform .forWriting fun _ path => FileTree.empty.read path).result ≠
        .error (.unexpectedNode kind path) := by
  have hschema : ofNode pickedText = .ok ⟨pickedText, .root, rfl⟩ := rfl
  obtain ⟨hwrites, hreads, -, -⟩ := internal_unreachable hschema .forWriting
  refine ⟨_, hschema, fun provider kind path => ?_, fun transform kind path => ?_⟩
  · exact hwrites.result provider _ FileTree.empty.external_createAfter _ trivial
      (pickedText_every fun _ => Kind.not_makesUp)
  · exact hreads.result transform _ FileTree.empty.external_read _ trivial
      (pickedText_every fun _ => Kind.not_makesUp)

end Schema

end ByteLayout
