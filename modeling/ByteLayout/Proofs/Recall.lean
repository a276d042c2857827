import ByteLayout.Proofs.Order
import ByteLayout.Proofs.RoundTrip

/-!
# What callbacks see of earlier fields

A callback sees what was kept of the fields before it. A read pass keeps what it reads. A write pass
keeps the integer or the text that it writes, but of a float the value that it was given.

**Theorem (`Schema.seen_alike`).** What the two passes keep of an integer or a string is the same.
What they keep of a float is the same exactly if the value that was given is a double that the kind
represents: an integer is read as a double, and a double with too many digits is read rounded. If
nothing else was found in the provider, the callbacks that pick nodes see the same in both passes.
-/

namespace ByteLayout

/-- Whether a node is an integer, a float or a string. -/
def Node.IsScalar : Node → Prop
  | .mk (.int _) _ _ (.sequence _) => False
  | .mk (.int _) _ _ _ => True
  | .mk (.float _) _ _ _ => True
  | _ => False

/-- Whether the bytes of a field give back a value that it was written from. -/
def Kind.GivesBack : Kind → Value → Prop
  | .float kind, value => ∃ x, value = .float x ∧ kind.Represents x
  | _, _ => True

/-! ## Floats -/

namespace FloatKind

variable {kind : FloatKind}

theorem ofBits_cases (bits : Nat) :
    kind.ofBits bits = .null ∨ ∃ x, kind.ofBits bits = .float x := by
  unfold ofBits
  split
  · exact .inr ⟨_, rfl⟩
  · exact .inl rfl

/-- **A value that a float was written from is read back exactly if it is a double that the kind
represents.** -/
theorem eq_decode_iff {value : Value} {x : Double} (order : ByteOrder)
    (h : kind.check value = .ok x) :
    value = kind.decode order (kind.encode order x) ↔
      ∃ y, value = .float y ∧ kind.Represents y := by
  obtain ⟨hfinite, hsame⟩ := nearestIn_of_check h
  constructor
  · intro hvalue
    have hcases : kind.decode order (kind.encode order x) = .null ∨
        ∃ y, kind.decode order (kind.encode order x) = .float y := ofBits_cases _
    rcases hcases with hnull | ⟨y, hy⟩
    · rw [hvalue, hnull] at h
      cases h
    · obtain rfl := hsame y (hvalue.trans hy)
      exact ⟨y, hvalue.trans hy, (decode_encode_iff order hfinite).mp hy⟩
  · rintro ⟨y, rfl, hrepresents⟩
    obtain rfl := hsame y rfl
    exact (decode_encode_of_represents order hrepresents).symm

end FloatKind

/-! ## One field in both passes -/

namespace Read

open Write

variable {aligned : Prop} {pass : Pass} {wpass : Write.Pass} {site site' : Site}
  {scope other : Scope} {input : Input} {record : Fields Value} {kept : Kept}

/-- Behind a silent lookup, a field is read where it was written. -/
theorem retraces_of_steps {steps lookup written : List Step} {plan : Fields Value → Plan Kept}
    {name : Option String} {value : Value} (hsteps : steps = lookup ++ written)
    (hlookup : ∀ step ∈ lookup, ∃ event, step = .record event ∧ event.Unseen)
    (hwritten : ∀ step ∈ written, step.Inside)
    (hplan : ∀ before, Retraces aligned (plan before) written (keep name before value)) :
    (∀ step ∈ steps, step.Inside) ∧
      ∀ before, Retraces aligned (plan before) steps (keep name before value) := by
  rw [hsteps]
  refine ⟨List.forall_mem_append.mpr ⟨?_, hwritten⟩, fun before => .after_silent hlookup
    (hplan before)⟩
  intro step hstep
  obtain ⟨event, rfl, -⟩ := hlookup step hstep
  trivial

/-- A scalar field is read where it was written. What is read is what was kept exactly if the bytes
give that back. -/
theorem scalar_retraces (h : scope.Mirrors aligned other) {node : Node} (hnode : node.IsScalar)
    (hok : (wpass.walk site scope input record node).outcome = .ok kept) :
    scope.file.isSome = true ∧ kept = keep node.name record kept.1 ∧
      ∃ value, (kept.1 = value ↔ node.kind.GivesBack kept.1) ∧
        (∀ step ∈ (wpass.walk site scope input record node).steps, step.Inside) ∧
        ∀ before, Retraces aligned (pass.walk site' other none before node)
          (wpass.walk site scope input record node).steps (keep node.name before value) := by
  obtain ⟨kind, name, default, payload⟩ := node
  cases kind with
  | int kind =>
    cases payload with
    | none =>
      rw [Write.Pass.walk] at hok ⊢
      simp only [Pass.walk]
      obtain ⟨order, n, horder, hn, rfl, hsteps⟩ := Write.Pass.int_eq_ok hok
      have hfile := Scope.isSome_file_of_fieldOrder horder
      refine ⟨hfile, by rw [keep_fst]; rfl, .int n, ?_, ?_⟩
      · rw [keep_fst]
        exact iff_of_true rfl trivial
      · exact retraces_of_steps hsteps (wpass.silent_resolve _ _ _ _ _ _)
          (by simp [Step.Inside]) fun _ => int_retraces (h.field _) horder hn
    | text text =>
      rw [Write.Pass.walk] at hok ⊢
      simp only [Pass.walk]
      obtain ⟨order, encoding, content, bytes, horder, hkind, hbytes, hlength, rfl, hsteps⟩ :=
        Write.Pass.string_eq_ok hok
      have hfile := Scope.isSome_file_of_fieldOrder horder
      refine ⟨hfile, by rw [keep_fst]; rfl, .string content, ?_, ?_⟩
      · rw [keep_fst]
        exact iff_of_true rfl trivial
      · exact retraces_of_steps hsteps (wpass.silent_resolve _ _ _ _ _ _)
          (by simp [Step.Inside]) fun _ =>
            string_retraces (h.field _) horder hkind hbytes hlength
    | sequence elements => cases hnode
  | float kind =>
    rw [Write.Pass.walk] at hok ⊢
    simp only [Pass.walk]
    obtain ⟨order, value, x, horder, -, hx, rfl, hsteps⟩ := Write.Pass.float_eq_ok hok
    have hfile := Scope.isSome_file_of_fieldOrder horder
    refine ⟨hfile, by rw [keep_fst]; rfl, kind.decode order (kind.encode order x), ?_, ?_⟩
    · rw [keep_fst]
      exact FloatKind.eq_decode_iff order hx
    · exact retraces_of_steps hsteps (wpass.silent_resolve _ _ _ _ _ _)
        (by simp [Step.Inside]) fun _ => float_retraces (h.field _) horder
  | _ => cases hnode

/-- A scalar field is answered from the bytes that were written. -/
theorem scalar_answered (h : scope.Mirrors False other) {node : Node} (hnode : node.IsScalar)
    (hok : (wpass.walk site scope input record node).outcome = .ok kept) {stage : Stage}
    {tail : List UInt8} (setup : Setup) (before : Fields Value)
    (hreading : stage.Reading true
      (Step.content tail (wpass.walk site scope input record node).steps)) :
    ∃ value later,
      stage.answerAll setup (pass.walk site' other none before node) =
        (.ok (keep node.name before value), later) ∧
      later.Reading true tail ∧ kept = keep node.name record kept.1 ∧
      (kept.1 = value ↔ node.kind.GivesBack kept.1) := by
  obtain ⟨hfile, hkept, value, hiff, hinside, hretraces⟩ := scalar_retraces h hnode hok
  obtain ⟨last, hlast, hend⟩ := wpass.walk_orderly site scope input record node
  rw [hend kept hok, hfile] at hlast
  have hserves : setup.opener.Serves False
      (Step.files tail (wpass.walk site scope input record node).steps) := by
    rw [← List.append_nil (wpass.walk site scope input record node).steps,
      Step.files_append_of_inside [] hinside]
    intro _ _ _ _ hfile
    cases hfile
  obtain ⟨later, hall, hanswered⟩ := Stage.answerAll_retraces (hretraces before) setup false hlast
    hreading hserves
  exact ⟨value, later, hall, hanswered.reading, hkept, hiff⟩

end Read

open Read Write

/-- **What callbacks see of earlier fields is the same in both passes, exactly if the bytes of these
fields give back what they were written from.** -/
theorem Schema.seen_alike (schema : Schema) (hbuiltIn : schema.root.Every Kind.BuiltIn) :
    (∀ (writer : Write.Pass) (reader : Read.Pass) (site : Site) (scope other : Scope)
      (input : Input) (record before : Fields Value) (node : Node) (name : String) (kept : Kept)
      (stage : Read.Stage) (setup : Read.Setup) (tail : List UInt8),
      node.IsScalar → node.name = some name → scope.Mirrors False other →
      (writer.walk site scope input record node).outcome = .ok kept →
      stage.Reading true (Step.content tail (writer.walk site scope input record node).steps) →
      ∃ value later,
        stage.answerAll setup (reader.walk site other none before node) =
          (.ok (value, Fields.insert before name value), later) ∧
        later.Reading true tail ∧ kept.2 = Fields.insert record name kept.1 ∧
        (kept.1 = value ↔ node.kind.GivesBack kept.1)) ∧
    ∀ (provider : Provider) (writing reading : Options) (opener : SinkOpener)
      (source : SourceOpener) (record : Fields Value),
      let written := schema.write provider writing opener
      opener.NeverFails → written.result = .ok record →
      (written.contents.map Prod.fst).Nodup →
      (∀ event ∈ written.journal.toList, event.Faithful) →
      reading.path = writing.path → reading.user = writing.user →
      source.HandsOut (Fields.ofList written.contents) →
      (schema.read none reading source).journal.selects = written.journal.selects := by
  constructor
  · intro writer reader site scope other input record before node name kept stage setup tail
      hnode hname h hok hreading
    obtain ⟨value, later, hall, hlater, hkept, hiff⟩ :=
      scalar_answered h hnode hok setup before hreading
    rw [hname] at hall hkept
    exact ⟨value, later, hall, hlater, congrArg Prod.snd hkept, hiff⟩
  · intro provider writing reading opener source record written hsinks hok hpaths hfaithful hpath
      huser hsource
    exact (Schema.answer_written hbuiltIn hsinks hok hpaths hfaithful hpath huser hsource).2.1
      impartial_select?

/-! ## An integer in the place of a double -/

/-- A double with a name. -/
def doubleField (name : String) : Node := (Node.ofKind (.float .f64)).named name

/-- A place in a file. -/
def fileScope : Scope :=
  { order := some .big, trail := "out", dir := "", file := some "out", index := none }

def oneData : Input := .within (.record [("x", .value (.int 1))])

def plainWriter : Write.Pass := { user := .null, nest := false }

def plainReader : Read.Pass := { user := .null, nest := false }

theorem check_int_one : FloatKind.f64.check (.int 1) = .ok one := by
  have hint : Finite.ofInt? .binary64 1 = some one := by decide +kernel
  have hdouble : FloatKind.toDouble (.int 1) = FloatKind.toDouble (.float one) := by
    unfold FloatKind.toDouble
    dsimp only
    rw [hint, Option.elim_some]
  have hsame : FloatKind.f64.check (.int 1) = FloatKind.f64.check (.float one) := by
    unfold FloatKind.check Value.int Value.float
    dsimp only
    rw [hdouble]
  rw [hsame, FloatKind.check_of_represents (represents_one .f64)]

theorem outcome_one :
    (plainWriter.walk .root fileScope oneData [] (doubleField "x")).outcome =
      .ok (.int 1, [("x", .int 1)]) :=
  Write.Pass.outcome_float rfl rfl check_int_one

/-- A stage with a file open of which nothing is read. -/
def Read.Stage.holding (bytes : List UInt8) : Read.Stage :=
  ⟨#[], #[], some (.create (.ofBytes bytes) 16 "out")⟩

theorem Read.Stage.reading_holding (bytes : List UInt8) :
    (Read.Stage.holding bytes).Reading true bytes := by
  refine ⟨rfl, fun stream hstream => ?_⟩
  obtain rfl := Option.some.inj hstream
  exact ⟨ReadStream.healthy_create (SourceBehaviour.generous_ofBytes _) _ _, rfl⟩

theorem Schema.seen_alike_tagged :
    (∃ value later, (Stage.holding (Step.content [] (plainWriter.walk .root fileScope oneData []
        (doubleField "x")).steps)).answerAll { opener := sourceOf [], chunk := 16, debug := false }
        (plainReader.walk .root fileScope none [] (doubleField "x")) =
          (.ok (value, [("x", value)]), later) ∧ later.Reading true [] ∧ .int 1 ≠ value) ∧
    (let written := tagged.write taggedData taggedOptions fun _ _ => .ok .faultless
    (tagged.read none taggedOptions (sourceOf written.contents)).journal.selects =
      written.journal.selects) := by
  obtain ⟨hfield, hselects⟩ := Schema.seen_alike tagged tagged_builtIn
  have hsinks := SinkOpener.neverFails_faultless
  constructor
  · obtain ⟨value, later, hall, hlater, -, hiff⟩ := hfield plainWriter plainReader .root fileScope
      fileScope oneData [] [] (doubleField "x") "x" (.int 1, [("x", .int 1)]) _
      { opener := sourceOf [], chunk := 16, debug := false } [] trivial rfl
      ⟨rfl, rfl, fun _ => rfl⟩ outcome_one (Stage.reading_holding _)
    refine ⟨value, later, hall, hlater, fun hsame => ?_⟩
    obtain ⟨x, hx, -⟩ := hiff.mp hsame
    cases hx
  · exact hselects taggedData taggedOptions taggedOptions _ _ _ hsinks
      ((Schema.write_result hsinks).trans tagged_outcome) tagged_paths
      ((Schema.faithful_write_iff hsinks).mpr tagged_faithful) rfl rfl (handsOut_sourceOf _)

end ByteLayout
