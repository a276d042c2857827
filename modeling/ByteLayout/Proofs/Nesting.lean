import ByteLayout.Proofs.Parsing
import ByteLayout.Proofs.Table
import ByteLayout.Proofs.WellFormed

/-!
# Files do not nest

Two rules keep files out of files. The check refuses the result of a `select` that has a file above
it in its own schema if there is a file anywhere in the result; and a pass refuses to open a file
while it is in one. The second rule covers what the first does not see: the result of a `select`
that lies in the result of another, or in the one file of a layout without file nodes, may hold a
file, and is walked up to there.

A pass **reaches** a part of its script or plan at a stage if that part is what comes next there
(`Write.Stage.Reaches`, `Read.Stage.Reaches`).

**Theorem (`Schema.intrusion_refused`).** A pass that reaches such a `select`, or a file within a
file, fails there with an error of the configuration, and its streams are left as they were.
-/

namespace ByteLayout

/-! ## What the check refuses -/

namespace Node

variable {site : Site} {node : Node} {error : Error}

/-- In a file everything is in a file. -/
theorem inFile_occurrences (hsite : site.inFile = true) :
    ∀ occurrence ∈ node.occurrences site, occurrence.site.inFile = true := by
  induction node using induct generalizing site with
  | node node hpayload hchildren =>
  have hbelow : ∀ placement, (site.below placement node).inFile = true := by
    intro placement
    show (site.inFile || node.kind.isFile) = true
    rw [hsite, Bool.true_or]
  intro occurrence h
  rcases mem_occurrences.mp h with rfl | ⟨part, hpart, h⟩ | ⟨child, hchild, h⟩
  · exact hsite
  · exact hpayload part hpart (hbelow _) occurrence h
  · exact hchildren child hchild (hbelow _) occurrence h

/-- **What is accepted in a file has no file in it.** -/
theorem fileCount_of_check (hsite : site.inFile = true) (h : node.check site = .ok ()) :
    node.fileCount = 0 := by
  rw [check_eq, verdict_eq_ok, List.findSome?_eq_none_iff] at h
  rw [← countP_isFile_occurrences site, List.countP_eq_zero]
  intro occurrence hoccurrence hfile
  have hkind := (checkSelf_eq_ok.mp (violation?_eq_none.mp (h occurrence hoccurrence))).1
  unfold checkKind at hkind
  rw [hfile, inFile_occurrences hsite occurrence hoccurrence] at hkind
  split at hkind
  · cases hkind
  · split at hkind <;> cases hkind

end Node

/-- A tree with a file in it does not take the place of a `select` in a file. -/
theorem Schema.attachAt_refused {site : Site} {node : Node} (hsite : site.inFile = true)
    (hfiles : 0 < node.fileCount) :
    ∃ error, error.category = .configuration ∧ attachAt site node = .error error := by
  cases hcheck : node.check site with
  | ok =>
    have := Node.fileCount_of_check hsite hcheck
    omega
  | error error =>
    exact ⟨error, (Node.structural_of_check hcheck).category, attachAt_of_error hcheck⟩

/-- A node that has no place where a pass comes to it: a file within a file, or a `select` with a
file above it that picks a tree with a file. -/
def Node.Intrudes (site : Site) (scope : Scope) (context : FieldContext) (node : Node) : Prop :=
  (node.kind.isFile = true ∧ scope.file.isSome = true) ∨
    ∃ choose, node.kind = .select choose ∧ site.inFile = true ∧ 0 < (choose context).value.fileCount

theorem Scope.enterFile_refused {scope : Scope} (h : scope.file.isSome = true) (relative : String) :
    scope.enterFile relative = .error (.nestedFile (Path.resolve scope.dir relative)) := by
  obtain ⟨path, hpath⟩ := Option.isSome_iff_exists.mp h
  rw [enterFile, hpath]

/-! ## Write passes -/

namespace Write

namespace Stage

variable {α γ : Type} {setup : Setup}

theorem log_log (stage : Stage) (first second : List Event) :
    (stage.log first).log second = stage.log (first ++ second) := by
  have hjournal : stage.journal ++ first ++ second = stage.journal ++ (first ++ second) :=
    Array.ext' (by simp)
  rw [log, log, log, hjournal]

@[simp] theorem log_nil (stage : Stage) : stage.log [] = stage := by simp [log]

theorem playAll_bind (script : Script α) (f : α → Script γ) (stage : Stage) :
    stage.playAll setup (script >>= f) =
      match stage.playAll setup script with
      | (later, .ok a) => later.playAll setup (f a)
      | (later, .error error) => (later, .error error) := by
  induction script generalizing stage with
  | done result => cases result <;> rfl
  | ask step next ih =>
    show playAll setup stage (.ask step fun reply => (next reply).bind _) =
      match playAll setup stage (.ask step next) with
      | (later, .ok a) => later.playAll setup (f a)
      | (later, .error error) => (later, .error error)
    rw [playAll, playAll]
    rcases stage.play setup step with ⟨later, _ | error⟩
    · exact ih () later
    · rfl

theorem playAll_notes (notes : List Note) (stage : Stage) :
    stage.playAll setup (.notes notes) = (stage.log (notes.map .note), .ok ()) := by
  induction notes generalizing stage with
  | nil => rw [List.map_nil, log_nil]; rfl
  | cons note rest ih =>
    refine (ih (stage.log [.note note])).trans ?_
    rw [log_log]
    rfl

/-- What is played from a stage on reaches a part of it at a later stage: the part comes next there,
and whatever came before it went well. -/
inductive Reaches (setup : Setup) {β : Type} (later : Stage) (part : Script β) :
    {α : Type} → Stage → Script α → Prop where
  | here : Reaches setup later part later part
  | first {α γ : Type} {stage : Stage} {script : Script α} (f : α → Script γ) :
    Reaches setup later part stage script → Reaches setup later part stage (script >>= f)
  | next {α γ : Type} {stage between : Stage} {script : Script α} {f : α → Script γ} {a : α} :
    stage.playAll setup script = (between, .ok a) → Reaches setup later part between (f a) →
    Reaches setup later part stage (script >>= f)

/-- If the part fails, all fails there. -/
theorem Reaches.fails {β : Type} {stage later last : Stage} {script : Script α} {part : Script β}
    {error : Error} (h : Reaches setup later part stage script)
    (hpart : later.playAll setup part = (last, .error error)) :
    stage.playAll setup script = (last, .error error) := by
  induction h with
  | here => exact hpart
  | first f _ ih => rw [playAll_bind, ih]
  | next hscript _ ih =>
    rw [playAll_bind, hscript]
    exact ih

end Stage

variable (pass : Pass) {setup : Setup} (stage : Stage) {site : Site} {scope : Scope}
  {record : Fields Value}

theorem Pass.walkChosen_refused {chosen : Noted Node} {error : Error}
    (h : Schema.attachAt site chosen.value = .error error) (input : Input) :
    stage.playAll setup (pass.walkChosen site scope input record chosen) =
      (stage.log (chosen.notes.map .note), .error error) := by
  obtain ⟨node, notes⟩ := chosen
  rw [walkChosen, Stage.playAll_bind, Stage.playAll_notes,
    show Schema.attachAt site node = _ from h]
  rfl

/-- **A node without a place is refused before anything is written.** -/
theorem Pass.walk_intrudes {node : Node}
    (h : node.Intrudes site scope (scope.context pass.user record)) (input : Input) :
    ∃ error events, error.category = .configuration ∧
      stage.playAll setup (pass.walk site scope input record node) =
        (stage.log events, .error error) := by
  obtain ⟨kind, name, default, payload⟩ := node
  rcases h with ⟨hfile, hscope⟩ | ⟨choose, hselect, hsite, hfiles⟩
  · cases kind with
    | file path children =>
      refine ⟨.nestedFile (Path.resolve scope.dir path), [], rfl, ?_⟩
      rw [walk, inFile, Scope.enterFile_refused hscope, Stage.log_nil]
      rfl
    | _ => cases hfile
  · obtain rfl : kind = .select choose := hselect
    set context := scope.context pass.user record
    have hsite : (site.ofSelect (.mk (.select choose) name default payload)).inFile = true := hsite
    obtain ⟨error, hcategory, hattach⟩ := Schema.attachAt_refused hsite hfiles
    refine ⟨error, .call (.select context) :: (choose context).notes.map .note, hcategory, ?_⟩
    rw [walk, Stage.playAll_bind]
    refine (walkChosen_refused pass (stage.log [.call (.select context)]) hattach input).trans ?_
    rw [Stage.log_log]
    rfl

theorem Script.play_of_fails {α : Type} {script : Script α} {before : List Event} {last : Stage}
    {error : Error} (h : (Stage.empty.log before).playAll setup script = (last, .error error)) :
    script.play setup before = ⟨.error error, last.abandon.journal, last.abandon.streams⟩ := by
  unfold play
  rw [h]

/-- What is written down does not change what is put away. -/
theorem Stage.streams_abandon_log (events : List Event) :
    (stage.log events).abandon.streams = stage.abandon.streams := by
  unfold abandon
  rw [show (stage.log events).current = stage.current from rfl]
  cases stage.current <;> rfl

end Write

/-! ## Read passes -/

namespace Read

namespace Stage

variable {α γ : Type} {setup : Setup}

theorem log_log (stage : Stage) (first second : List Event) :
    (stage.log first).log second = stage.log (first ++ second) := by
  have hjournal : stage.journal ++ first ++ second = stage.journal ++ (first ++ second) :=
    Array.ext' (by simp)
  rw [log, log, log, hjournal]

@[simp] theorem log_nil (stage : Stage) : stage.log [] = stage := by simp [log]

theorem follow_notes (notes : List Note) (stage : Stage) :
    stage.follow setup (.notes notes) = (.ok (), stage.log (notes.map .note)) := by
  induction notes generalizing stage with
  | nil => rw [List.map_nil, log_nil]; rfl
  | cons note rest ih =>
    refine (ih (stage.log [.note note])).trans ?_
    rw [log_log]
    rfl

/-- A plan followed from a stage on reaches a part of it at a later stage: the part comes next
there, and whatever came before it went well. -/
inductive Reaches (setup : Setup) {β : Type} (later : Stage) (part : Plan β) :
    {α : Type} → Stage → Plan α → Prop where
  | here : Reaches setup later part later part
  | first {α γ : Type} {stage : Stage} {plan : Plan α} (f : α → Plan γ) :
    Reaches setup later part stage plan → Reaches setup later part stage (plan >>= f)
  | next {α γ : Type} {stage between : Stage} {plan : Plan α} {f : α → Plan γ} {a : α} :
    stage.follow setup plan = (.ok a, between) → Reaches setup later part between (f a) →
    Reaches setup later part stage (plan >>= f)

/-- If the part fails, all fails there. -/
theorem Reaches.fails {β : Type} {stage later last : Stage} {plan : Plan α} {part : Plan β}
    {error : Error} (h : Reaches setup later part stage plan)
    (hpart : later.follow setup part = (.error error, last)) :
    stage.follow setup plan = (.error error, last) := by
  induction h with
  | here => exact hpart
  | first f _ ih => rw [follow_bind, ih]
  | next hplan _ ih =>
    rw [follow_bind, hplan]
    exact ih

end Stage

variable (pass : Pass) {setup : Setup} (stage : Stage) {site : Site} {scope : Scope}
  {record : Fields Value}

theorem Pass.walkChosen_refused {chosen : Noted Node} {error : Error}
    (h : Schema.attachAt site chosen.value = .error error) (transform : Option Transform) :
    stage.follow setup (pass.walkChosen site scope transform record chosen) =
      (.error error, stage.log (chosen.notes.map .note)) := by
  obtain ⟨node, notes⟩ := chosen
  rw [walkChosen, Stage.follow_bind, Stage.follow_notes, show Schema.attachAt site node = _ from h]
  rfl

/-- **A node without a place is refused before anything is read.** -/
theorem Pass.walk_intrudes {node : Node}
    (h : node.Intrudes site scope (scope.context pass.user record)) (transform : Option Transform) :
    ∃ error events, error.category = .configuration ∧
      stage.follow setup (pass.walk site scope transform record node) =
        (.error error, stage.log events) := by
  obtain ⟨kind, name, default, payload⟩ := node
  rcases h with ⟨hfile, hscope⟩ | ⟨choose, hselect, hsite, hfiles⟩
  · cases kind with
    | file path children =>
      refine ⟨.nestedFile (Path.resolve scope.dir path), [], rfl, ?_⟩
      rw [walk, inFile, Scope.enterFile_refused hscope, Stage.log_nil]
      rfl
    | _ => cases hfile
  · obtain rfl : kind = .select choose := hselect
    set context := scope.context pass.user record
    have hsite : (site.ofSelect (.mk (.select choose) name default payload)).inFile = true := hsite
    obtain ⟨error, hcategory, hattach⟩ := Schema.attachAt_refused hsite hfiles
    refine ⟨error, .call (.select context) :: (choose context).notes.map .note, hcategory, ?_⟩
    rw [walk, Stage.follow_bind]
    refine (walkChosen_refused pass (stage.log [.call (.select context)]) hattach
      transform).trans ?_
    rw [Stage.log_log]
    rfl

theorem Plan.answer_of_fails {α : Type} {plan : Plan α} {before : List Event} {last : Stage}
    {error : Error} (h : (Stage.empty.log before).follow setup plan = (.error error, last)) :
    plan.answer setup before = ⟨.error error, last.abandon.journal, last.abandon.streams⟩ := by
  unfold answer
  rw [show (Stage.empty.log before).answerAll setup plan = _ from h]

/-- What is written down does not change what is put away. -/
theorem Stage.streams_abandon_log (events : List Event) :
    (stage.log events).abandon.streams = stage.abandon.streams := by
  unfold abandon
  rw [show (stage.log events).current = stage.current from rfl]
  cases stage.current <;> rfl

end Read

/-! ## Whole passes -/

namespace Schema

variable (schema : Schema) (options : Options)

/-- A write pass reaches the walk of a node at a stage. -/
def WriteReaches (provider : Provider) (opener : Write.SinkOpener) (stage : Write.Stage)
    (pass : Write.Pass) (site : Site) (scope : Scope) (input : Input) (record : Fields Value)
    (node : Node) : Prop :=
  Write.Stage.Reaches { opener, capacity := options.clamped.bufferSize, debug := options.debug }
    stage (pass.walk site scope input record node) (Write.Stage.empty.log (options.warnings .write))
    (schema.writeScript provider options)

/-- A read pass reaches the walk of a node at a stage. -/
def ReadReaches (whole : Option Transform) (opener : Read.SourceOpener) (stage : Read.Stage)
    (pass : Read.Pass) (site : Site) (scope : Scope) (transform : Option Transform)
    (record : Fields Value) (node : Node) : Prop :=
  Read.Stage.Reaches { opener, chunk := options.clamped.bufferSize, debug := options.debug }
    stage (pass.walk site scope transform record node)
    (Read.Stage.empty.log (options.warnings .read)) (schema.readPlan whole options)

/-- **No pass gets past a node without a place.** If it reaches a file within a file, or a `select`
with a file above it in its schema that picks a tree with a file, it fails with an error of the
configuration, and no stream gives or takes a byte any more. -/
theorem intrusion_refused :
    (∀ provider opener stage pass site scope input record node,
      schema.WriteReaches options provider opener stage pass site scope input record node →
      node.Intrudes site scope (scope.context pass.user record) →
      ∃ error, error.category = .configuration ∧
        (schema.write provider options opener).result = .error error ∧
        (schema.write provider options opener).streams = stage.abandon.streams) ∧
    ∀ whole opener stage pass site scope transform record node,
      schema.ReadReaches options whole opener stage pass site scope transform record node →
      node.Intrudes site scope (scope.context pass.user record) →
      ∃ error, error.category = .configuration ∧
        (schema.read whole options opener).result = .error error ∧
        (schema.read whole options opener).streams = stage.abandon.streams := by
  constructor
  · intro provider opener stage pass site scope input record node hreaches hnode
    obtain ⟨error, events, hcategory, hwalk⟩ := pass.walk_intrudes stage hnode input
    have hreport : schema.write provider options opener = _ :=
      Write.Script.play_of_fails (hreaches.fails hwalk)
    rw [hreport]
    exact ⟨error, hcategory, rfl, stage.streams_abandon_log events⟩
  · intro whole opener stage pass site scope transform record node hreaches hnode
    obtain ⟨error, events, hcategory, hwalk⟩ := pass.walk_intrudes stage hnode transform
    have hreport : schema.read whole options opener = _ :=
      Read.Plan.answer_of_fails (hreaches.fails hwalk)
    rw [hreport]
    exact ⟨error, hcategory, rfl, stage.streams_abandon_log events⟩

/-- A `select` that picks a file. -/
def filePicker : Node := .ofKind (.select fun _ => ⟨.ofKind (.file "b.bin" []), []⟩)

/-- A file whose content is picked to be another file. -/
def pickedFile : Schema where
  root := .ofKind (.file "a.bin" [filePicker])
  site := .root
  checked := rfl

/-- A pass over `pickedFile` once its file is open. -/
def pickedStage : Write.Stage where
  journal := #[.trace (.opening (Path.resolve "." "a.bin")), .opened (Path.resolve "." "a.bin"),
    .trace (.writeReady (Path.resolve "." "a.bin") 2048)]
  streams := #[]
  current := some (.create .faultless 2048 (Path.resolve "." "a.bin"))

theorem pickedFile_reaches : pickedFile.WriteReaches .forWriting .empty (fun _ _ => .ok .faultless)
    pickedStage ⟨.null, false⟩ (pickedFile.rootSite.below .child pickedFile.root)
    ⟨none, Path.resolve "." "a.bin", ".", some (Path.resolve "." "a.bin"), none⟩
    ((Input.within .empty).below "a.bin") [] filePicker := by
  unfold WriteReaches writeScript
  rw [if_neg (by decide)]
  refine .first _ ?_
  show Write.Stage.Reaches _ _ _ _ (Write.Pass.walk _ _ _ _ _ (.mk (.file _ [filePicker]) _ _ _))
  rw [Write.Pass.walk]
  refine .first _ ?_
  unfold Write.Pass.inFile
  refine .next rfl ?_
  refine .next rfl ?_
  refine .next rfl ?_
  refine .first _ ?_
  show Write.Stage.Reaches _ _ _ _ (Write.Pass.walkAll _ _ _ _ _ _ [filePicker])
  rw [Write.Pass.walkAll]
  exact .first _ .here

theorem intrusion_refused_pickedFile : ∃ error, error.category = .configuration ∧
    (pickedFile.write .empty .forWriting fun _ _ => .ok .faultless).result = .error error ∧
    (pickedFile.write .empty .forWriting fun _ _ => .ok .faultless).streams.toList.map
      (fun stream => stream.sink.data.toList) = [[]] := by
  obtain ⟨error, hcategory, hresult, hstreams⟩ := (pickedFile.intrusion_refused .forWriting).1 _ _ _
    _ _ _ _ _ _ pickedFile_reaches (.inr ⟨_, rfl, rfl, by decide⟩)
  refine ⟨error, hcategory, hresult, ?_⟩
  rw [hstreams]
  rfl

end Schema

end ByteLayout
