import ByteLayout.Proofs.Numbers
import ByteLayout.Proofs.Turns

/-!
# Fields in one piece

Before a field is written everything about it is checked: its value, the bytes of its text, its
length, the count of a sequence. So a field that fails leaves nothing behind, and never a part of
itself.

What a pass comes to is listed by its **course** (`Schema.course`): the fields in the order of their
declaration, with the opening and the closing of the files around them, up to where the pass ends. A
sequence stands ahead of its items. The course knows of no byte; what bytes a field has follows from
the value that is kept for it (`Pass.posted?`).

**Step (`Script.Wholly`).** The script of a field writes all bytes of the field, or none.

**Run (`Pass.walk_tells`).** The steps of a tree write what its course says.

**Theorem (`Schema.write_in_one_piece`).** On sinks that do not fail, a file has the bytes of all
fields that were completed before the pass ended, and no others.
-/

namespace ByteLayout

/-! ## The bytes of a field -/

/-- The bytes that a value has as a field. -/
def Node.encoding? (order : ByteOrder) (context : CodecContext) (value : Value) :
    Node → Option (List UInt8)
  | .mk kind _ _ payload =>
    match kind, payload, value with
    | .int kind, .none, .int n => some (kind.encode order n)
    | .int kind, .text text, .string content =>
      match text.kind with
      | .text encoding => (encoding.toBytes content).toOption.map fun bytes =>
          kind.encode order (encoding.byteLength content) ++ bytes
      | _ => none
    | .float kind, _, value => (kind.check value).toOption.map (kind.encode order)
    | .custom codec, _, value => (codec.encode context value).run.value.toOption
    | _, _, _ => none

/-- Whether a node is no sequence. -/
def Node.IsLeaf (node : Node) : Prop :=
  ∀ kind name default elements, node ≠ .mk (.int kind) name default (.sequence elements)

namespace Write

variable {α β : Type}

/-! ## All or nothing -/

namespace Script

/-- Whether a script writes bytes that fit its result, or ends badly and writes none. -/
structure Wholly (fits : α → List UInt8 → Prop) (script : Script α) : Prop where
  inside : script.Inside
  ok : ∀ a, script.outcome = .ok a → fits a (Step.content [] script.steps)
  error : ∀ error, script.outcome = .error error → Step.content [] script.steps = []

variable {fits : β → List UInt8 → Prop} {script : Script β}

theorem wholly_fail (error : Error) : Wholly fits (.fail error) :=
  ⟨List.forall_mem_nil _, nofun, fun _ _ => rfl⟩

/-- What cannot fail any more may write. -/
theorem wholly_ok {b : β} (h : script.outcome = .ok b) (hinside : script.Inside)
    (hfits : fits b (Step.content [] script.steps)) : script.Wholly fits := by
  refine ⟨hinside, fun a ha => ?_, fun error herror => ?_⟩
  · obtain rfl := Except.ok.inj (h.symm.trans ha)
    exact hfits
  · rw [h] at herror
    cases herror

theorem Silent.inside {script : Script α} (h : script.Silent) : script.Inside := by
  intro step hstep
  obtain ⟨event, rfl, -⟩ := h step hstep
  trivial

theorem Silent.content_eq_nil {script : Script α} (h : script.Silent) :
    Step.content [] script.steps = [] := by
  have hcontent := Step.content_silent h []
  rwa [List.append_nil] at hcontent

/-- What only writes events down may fail before anything is written. -/
theorem Wholly.after {script : Script α} {f : α → Script β} (h : script.Silent)
    (hf : ∀ a, script.outcome = .ok a → (f a).Wholly fits) : (script >>= f).Wholly fits := by
  refine ⟨fun step hstep => ?_, fun b hb => ?_, fun error herror => ?_⟩
  · rcases mem_steps_bind.mp hstep with hstep | ⟨a, ha, hstep⟩
    · exact h.inside step hstep
    · exact (hf a ha).inside step hstep
  · obtain ⟨a, ha, hb⟩ := outcome_bind_eq_ok.mp hb
    rw [steps_bind_of_ok ha, Step.content_silent h]
    exact (hf a ha).ok b hb
  · cases hout : script.outcome with
    | error found =>
      rw [steps_bind_of_error hout]
      exact h.content_eq_nil
    | ok a =>
      rw [outcome_bind_of_ok hout] at herror
      rw [steps_bind_of_ok hout, Step.content_silent h]
      exact (hf a hout).error error herror

end Script

namespace Pass

open Script

variable (pass : Pass) (name : Option String) (default : Option Value) (scope : Scope)
  (input : Input) (record : Fields Value)

theorem scalar_wholly {fits : α → List UInt8 → Prop} (kind : String) {bytes : List UInt8} {a : α}
    (h : fits a bytes) : (scalar scope kind bytes >>= fun _ => Pure.pure a).Wholly fits := by
  have hcontent : Step.content [] (Script.steps (scalar scope kind bytes >>= fun _ =>
      Pure.pure a)) = bytes := List.append_nil bytes
  refine wholly_ok rfl ?_ (hcontent.symm ▸ h)
  exact List.forall_mem_cons.mpr ⟨trivial, List.forall_mem_singleton.mpr trivial⟩

/-- Whether bytes are those of the value that is kept for a field. -/
def Posts (node : Node) (kept : Kept) (bytes : List UInt8) : Prop :=
  ∃ order, scope.fieldOrder node.kind.label = .ok order ∧
    node.encoding? order (scope.codecContext order pass.user record) kept.1 = some bytes

theorem int_wholly (kind : IntKind) :
    (pass.int kind name default scope input record).Wholly
      (pass.Posts scope record (.mk (.int kind) name default .none)) := by
  refine .after (silent_of_no_steps rfl) fun order horder => ?_
  refine .after (pass.silent_resolve _ _ _ _ _ _) fun value _ => ?_
  refine .after (silent_of_no_steps (steps_ofCheck _ _)) fun n _ => ?_
  refine scalar_wholly scope kind.label ⟨order, horder, ?_⟩
  rw [keep_fst]
  rfl

theorem float_wholly (kind : FloatKind) (payload : Payload) :
    (pass.float kind name default scope input record).Wholly
      (pass.Posts scope record (.mk (.float kind) name default payload)) := by
  refine .after (silent_of_no_steps rfl) fun order horder => ?_
  refine .after (pass.silent_resolve _ _ _ _ _ _) fun value _ => ?_
  refine .after (silent_of_no_steps (steps_ofCheck _ _)) fun x hx => ?_
  have hcheck : kind.check value = .ok x := outcome_ofCheck_eq_ok.mp hx
  refine scalar_wholly scope kind.label ⟨order, horder, ?_⟩
  rw [keep_fst, Node.encoding?, hcheck]
  rfl

theorem string_wholly (kind : IntKind) (text : Node) :
    (pass.string kind text name default scope input record).Wholly
      (pass.Posts scope record (.mk (.int kind) name default (.text text))) := by
  refine .after (silent_of_no_steps rfl) fun order horder => ?_
  cases hkind : text.kind with
  | text encoding =>
    refine .after (pass.silent_resolve _ _ _ _ _ _) fun value _ => ?_
    refine .after (silent_of_no_steps (steps_ofCheck _ _)) fun content _ => ?_
    refine .after (silent_of_no_steps (steps_ofCheck _ _)) fun bytes hbytes => ?_
    refine .after (silent_of_no_steps (steps_ofCheck _ _)) fun length hlength => ?_
    have hencoded : encoding.toBytes content = .ok bytes := outcome_ofCheck_eq_ok.mp hbytes
    obtain ⟨-, rfl⟩ := lengthOf_eq_ok (outcome_ofCheck_eq_ok.mp hlength)
    refine wholly_ok rfl ?_ ⟨order, horder, ?_⟩
    · exact List.forall_mem_cons.mpr ⟨trivial, List.forall_mem_cons.mpr
        ⟨trivial, List.forall_mem_singleton.mpr trivial⟩⟩
    · rw [keep_fst, Node.encoding?, hkind]
      dsimp only
      rw [hencoded]
      refine congrArg some (congrArg (kind.encode order _ ++ ·) ?_)
      exact (List.append_nil bytes).symm
  | _ => exact wholly_fail _

theorem custom_wholly (codec : Codec) (payload : Payload) :
    (pass.custom codec (Kind.custom codec).label name default scope input record).Wholly
      (pass.Posts scope record (.mk (.custom codec) name default payload)) := by
  refine .after (silent_of_no_steps rfl) fun order horder => ?_
  refine .after (pass.silent_literal _ _ _ _) fun given _ => ?_
  refine .after (silent_called ⟨rfl, rfl⟩ _) fun encoded hencoded => ?_
  rw [outcome_called] at hencoded
  cases encoded with
  | error fault => exact wholly_fail _
  | ok bytes =>
    refine wholly_ok rfl ?_ ⟨order, horder, ?_⟩
    · exact List.forall_mem_cons.mpr ⟨trivial, List.forall_mem_singleton.mpr trivial⟩
    · rw [keep_fst, Node.encoding?, Except.ok.inj hencoded]
      exact congrArg some (List.append_nil _).symm

/-- A sequence is begun with its whole count, or not at all. -/
theorem opening_wholly (kind : IntKind) :
    (pass.opening kind name default scope input record).Wholly fun supply bytes =>
      ∃ order n, scope.fieldOrder kind.label = .ok order ∧
        countOf kind supply.count = .ok n ∧ bytes = kind.encode order n := by
  refine .after (pass.silent_declared _ _ _ _ _ _) fun found hfound => ?_
  obtain ⟨order, provider, n, horder, -, -, hn, hbytes⟩ := pass.declared_eq_ok _ _ _ _ _ _ hfound
  exact scalar_wholly scope kind.label ⟨order, n, horder, hn, hbytes⟩

/-- The bytes that the pass writes at a visited field: those of the value that is kept for it, or of
the count of a sequence that is begun. A field that fails has none. -/
def posted? (visit : Visit) : Option (List UInt8) :=
  let here := visit.scope.field visit.node.label
  (here.fieldOrder visit.node.kind.label).toOption.bind fun order =>
    match visit.node with
    | .mk (.int kind) name default (.sequence _) =>
      (pass.opening kind name default here visit.input visit.record).outcome.toOption.bind
        fun supply => (countOf kind supply.count).toOption.map (kind.encode order)
    | node =>
      (pass.scriptAt visit).outcome.toOption.bind fun kept =>
        node.encoding? order (here.codecContext order pass.user visit.record) kept.1

/-- A sequence has the bytes of its count, if it is begun. -/
theorem posted?_sequence {visit : Visit} {kind : IntKind} {name : Option String}
    {default : Option Value} {elements : List Node}
    (hnode : visit.node = .mk (.int kind) name default (.sequence elements)) :
    pass.posted? visit =
      ((visit.scope.field visit.node.label).fieldOrder kind.label).toOption.bind fun order =>
        (pass.opening kind name default (visit.scope.field visit.node.label) visit.input
          visit.record).outcome.toOption.bind fun supply =>
            (countOf kind supply.count).toOption.map (kind.encode order) := by
  obtain ⟨site, scope, input, record, node⟩ := visit
  obtain rfl : node = .mk (.int kind) name default (.sequence elements) := hnode
  rfl

/-- Any other field has the bytes of what is kept for it, if it ends well. -/
theorem posted?_leaf {visit : Visit} (hnode : visit.node.IsLeaf) :
    pass.posted? visit =
      ((visit.scope.field visit.node.label).fieldOrder visit.node.kind.label).toOption.bind
        fun order => (pass.scriptAt visit).outcome.toOption.bind fun kept =>
          visit.node.encoding? order ((visit.scope.field visit.node.label).codecContext order
            pass.user visit.record) kept.1 := by
  unfold posted?
  dsimp only
  refine congrArg _ (funext fun order => ?_)
  split
  · next hsequence => exact absurd hsequence (hnode _ _ _ _)
  · rfl

end Pass

/-! ## Courses -/

/-- What a pass comes to. -/
inductive Landmark where
  /-- The file at a path is opened. -/
  | opened (path : String)
  | field (visit : Visit)
  /-- The file that is open is closed. -/
  | closed

namespace Landmark

variable (pass : Pass)

/-- Whether a pass gets past what it comes to. -/
def Passed : Landmark → Prop
  | field visit => (pass.posted? visit).isSome = true
  | opened _ => True
  | closed => True

/-- The bytes of the fields up to the closing of the file that is open. -/
def content : List Landmark → List UInt8
  | [] => []
  | opened _ :: rest => content rest
  | field visit :: rest => (pass.posted? visit).getD [] ++ content rest
  | closed :: _ => []

/-- The files with the bytes of their fields. -/
def files : List Landmark → List (String × List UInt8)
  | [] => []
  | opened path :: rest => (path, content pass rest) :: files rest
  | field _ :: rest => files rest
  | closed :: rest => files rest

end Landmark

namespace Script

/-- What is listed behind a script, if it ends well. -/
def thence (script : Script α) (rest : α → List Landmark) : List Landmark :=
  match script.outcome with
  | .ok a => rest a
  | .error _ => []

theorem thence_of_ok {script : Script α} {a : α} (h : script.outcome = .ok a)
    (rest : α → List Landmark) : script.thence rest = rest a := by
  unfold thence
  rw [h]

theorem thence_of_error {script : Script α} {error : Error} (h : script.outcome = .error error)
    (rest : α → List Landmark) : script.thence rest = [] := by
  unfold thence
  rw [h]

/-- The courses of scripts that are listed, up to one that fails. -/
def courses (item : Nat → Script α) (course : Nat → List Landmark) : Nat → Nat → List Landmark
  | 0, _ => []
  | count + 1, index =>
    course index ++ (item index).thence fun _ => courses item course count (index + 1)

end Script

namespace Pass

variable (pass : Pass)

/-- The course of a file with its content. -/
def fileCourse (relative : String) (scope : Scope) (record : Fields Value)
    (content : Scope → Fields Value → Script (List Value × Fields Value))
    (course : Scope → Fields Value → List Landmark) : List Landmark :=
  (Script.ofExcept (scope.enterFile relative)).thence fun inner =>
    let record := if pass.nest then [] else record
    .opened (Path.resolve scope.dir relative) ::
      (course inner record ++ (content inner record).thence fun _ => [.closed])

mutual

/-- The course of a node: what the pass comes to there, up to where it ends. -/
def course (site : Site) (scope : Scope) (input : Input) (record : Fields Value) :
    Node → List Landmark
  | .mk kind name default payload =>
    let node := Node.mk kind name default payload
    let visit : Visit := ⟨site, scope, input, record, node⟩
    match kind with
    | .order order children =>
      courseAll (site.below .child node) (scope.withOrder order) (fun _ => input.enter) 0 record
        children
    | .group children =>
      courseAll (site.below .child node) scope (fun _ => input.enter) 0 record children
    | .directory path children =>
      courseAll (site.below .child node) (scope.enterDir path) (fun _ => input.below path) 0 record
        children
    | .file path children =>
      pass.fileCourse path scope record
        (fun scope record =>
          pass.walkAll (site.below .child node) scope (fun _ => input.below path) 0 record children)
        fun scope record =>
          courseAll (site.below .child node) scope (fun _ => input.below path) 0 record children
    | .select choose =>
      courseChosen (site.ofSelect node) scope input record
        (choose (scope.context pass.user record))
    | .text _ => []
    | .custom _ => [.field visit]
    | .float _ => [.field visit]
    | .int kind =>
      match payload with
      | .none => [.field visit]
      | .text _ => [.field visit]
      | .sequence elements =>
        let here := scope.field node.label
        .field visit :: (pass.opening kind name default here input record).thence fun supply =>
          Script.courses (pass.itemOf elements visit supply)
            (fun index => (pass.pull here supply index).thence fun item =>
              courseAll (site.below .element node) (here.item index)
                (itemInput elements.length item) 0 [] elements)
            supply.length 0
termination_by structural node => node

/-- The course of the result of a `select`. -/
def courseChosen (site : Site) (scope : Scope) (input : Input) (record : Fields Value) :
    Noted Node → List Landmark
  | ⟨node, _⟩ =>
    (Script.ofExcept (Schema.attachAt site node)).thence fun schema =>
      course schema.rootSite scope input record node
termination_by structural chosen => chosen

/-- The courses of nodes one after the other. -/
def courseAll (site : Site) (scope : Scope) (inputs : Nat → Input) (index : Nat)
    (record : Fields Value) : List Node → List Landmark
  | [] => []
  | node :: rest =>
    course site scope (inputs index) record node ++
      (pass.walk site scope (inputs index) record node).thence fun kept =>
        courseAll site scope inputs (index + 1) kept.2 rest
termination_by structural nodes => nodes

end

end Pass

/-! ## Steps that tell of a course -/

namespace Landmark

variable (pass : Pass)

/-- Whether steps write the bytes and the files of what a pass comes to. -/
structure Written (marks : List Landmark) (steps : List Step) : Prop where
  content : Step.content [] steps = Landmark.content pass marks
  files : Step.files [] steps = Landmark.files pass marks

variable {pass} {marks : List Landmark} {steps : List Step}

/-- Steps inside a file do not add a file. -/
theorem Written.field (h : Written pass marks steps) {visit : Visit} {first : List Step}
    (hinside : ∀ step ∈ first, step.Inside)
    (hcontent : Step.content [] first = (pass.posted? visit).getD []) :
    Written pass (.field visit :: marks) (first ++ steps) where
  content := by
    rw [Step.content_append_of_inside _ hinside, hcontent, h.content]
    rfl
  files := (Step.files_append_of_inside _ hinside).trans h.files

end Landmark

open Script

/-- Whether the steps of a script write what a course says. A field without bytes is the last, and
ends the script as it ends itself. -/
structure Pass.Tells (pass : Pass) (script : Script α) (course : List Landmark) : Prop where
  written : ∀ {marks steps}, Landmark.Written pass marks steps →
    Landmark.Written pass (course ++ marks) (script.steps ++ steps)
  passed : ∀ mark ∈ course.dropLast, mark.Passed pass
  fails : ∀ visit, .field visit ∈ course → pass.posted? visit = none →
    ∃ error, (pass.scriptAt visit).outcome = .error error ∧ script.outcome = .error error

namespace Pass

variable {pass : Pass}

/-- What ends well gets past all that it comes to. -/
theorem Tells.passed_of_ok {script : Script α} {course : List Landmark}
    (h : pass.Tells script course) {a : α} (hok : script.outcome = .ok a) :
    ∀ mark ∈ course, mark.Passed pass := by
  intro mark hmark
  cases mark with
  | field visit =>
    refine Option.isSome_iff_ne_none.mpr fun hnone => ?_
    obtain ⟨error, -, herror⟩ := h.fails visit hmark hnone
    rw [hok] at herror
    cases herror
  | _ => trivial

/-- What only writes events down comes to nothing. -/
theorem tells_of_records {script : Script α}
    (h : ∀ step ∈ script.steps, ∃ event, step = .record event) : pass.Tells script [] where
  written {marks steps} hwritten := by
    generalize script.steps = first at h
    induction first with
    | nil => exact hwritten
    | cons step more ih =>
      obtain ⟨event, rfl⟩ := h step List.mem_cons_self
      obtain ⟨hcontent, hfiles⟩ := ih fun other hother => h other (List.mem_cons_of_mem _ hother)
      exact ⟨hcontent, hfiles⟩
  passed := nofun
  fails := nofun

theorem tells_of_silent {script : Script α} (h : script.Silent) : pass.Tells script [] :=
  tells_of_records fun step hstep =>
    let ⟨event, hevent, _⟩ := h step hstep
    ⟨event, hevent⟩

theorem tells_nothing {script : Script α} (h : script.steps = []) : pass.Tells script [] :=
  tells_of_silent (silent_of_no_steps h)

theorem tells_event (event : Event) : pass.Tells (Script.event event) [] :=
  tells_of_records fun _ hstep => ⟨event, List.mem_singleton.mp hstep⟩

/-- A file is opened or closed. -/
theorem tells_step {step : Step} {mark : Landmark} (hmark : ∀ visit, mark ≠ .field visit)
    (hwritten : ∀ {marks steps}, Landmark.Written pass marks steps →
      Landmark.Written pass (mark :: marks) (step :: steps)) :
    pass.Tells (Script.step step) [mark] where
  written := hwritten
  passed := nofun
  fails visit hvisit := absurd (List.mem_singleton.mp hvisit).symm (hmark visit)

/-- A field whose bytes are written wholly. -/
theorem tells_field {script : Script α} {fits : α → List UInt8 → Prop} (h : script.Wholly fits)
    {visit : Visit}
    (hok : ∀ a bytes, script.outcome = .ok a → fits a bytes → pass.posted? visit = some bytes)
    (hfails : ∀ error, script.outcome = .error error →
      pass.posted? visit = none ∧ (pass.scriptAt visit).outcome = .error error) :
    pass.Tells script [.field visit] where
  written hwritten := by
    refine hwritten.field h.inside ?_
    cases hout : script.outcome with
    | error error =>
      rw [(hfails error hout).1]
      exact h.error error hout
    | ok a =>
      rw [hok a _ hout (h.ok a hout)]
      rfl
  passed := nofun
  fails other hother hnone := by
    obtain rfl : other = visit := Landmark.field.inj (List.mem_singleton.mp hother)
    cases hout : script.outcome with
    | error error => exact ⟨error, (hfails error hout).2, rfl⟩
    | ok a =>
      rw [hok a _ hout (h.ok a hout)] at hnone
      cases hnone

theorem Tells.bind {script : Script α} {f : α → Script β} {course : List Landmark}
    {next : α → List Landmark} (h : pass.Tells script course)
    (hf : ∀ a, script.outcome = .ok a → pass.Tells (f a) (next a)) :
    pass.Tells (script >>= f) (course ++ script.thence next) := by
  cases hout : script.outcome with
  | error error =>
    rw [thence_of_error hout, List.append_nil]
    refine ⟨fun hwritten => ?_, h.passed, fun visit hvisit hnone => ?_⟩
    · rw [steps_bind_of_error hout]
      exact h.written hwritten
    · obtain ⟨found, hfound, hends⟩ := h.fails visit hvisit hnone
      refine ⟨found, hfound, ?_⟩
      rw [bind_eq, outcome_bind, hends]
      rfl
  | ok a =>
    -- what the first script comes to is passed to the end, so no field of it may be without bytes
    have hnext := hf a hout
    have hall := h.passed_of_ok hout
    rw [thence_of_ok hout]
    refine ⟨fun hwritten => ?_, fun mark hmark => ?_, fun visit hvisit hnone => ?_⟩
    · rw [steps_bind_of_ok hout, List.append_assoc, List.append_assoc]
      exact h.written (hnext.written hwritten)
    · rw [List.dropLast_append] at hmark
      split at hmark
      · exact hall mark (List.mem_of_mem_dropLast hmark)
      · exact (List.mem_append.mp hmark).elim (hall mark) (hnext.passed mark)
    · rw [outcome_bind_of_ok hout]
      rcases List.mem_append.mp hvisit with hvisit | hvisit
      · obtain ⟨error, -, herror⟩ := h.fails visit hvisit hnone
        rw [hout] at herror
        cases herror
      · exact hnext.fails visit hvisit hnone

/-- What comes behind a script that ends well. -/
theorem Tells.then {script : Script α} {f : α → Script β} {course more : List Landmark} {a : α}
    (h : pass.Tells script course) (hok : script.outcome = .ok a) (hf : pass.Tells (f a) more) :
    pass.Tells (script >>= f) (course ++ more) := by
  have hbind : pass.Tells (script >>= f) (course ++ script.thence fun _ => more) :=
    h.bind fun b hb => Except.ok.inj (hok.symm.trans hb) ▸ hf
  rwa [thence_of_ok hok] at hbind

/-- What comes behind a script may come to nothing. -/
theorem Tells.alone {script : Script α} {f : α → Script β} {course : List Landmark}
    (h : pass.Tells script course) (hf : ∀ a, pass.Tells (f a) []) :
    pass.Tells (script >>= f) course := by
  have hbind : pass.Tells (script >>= f) (course ++ script.thence fun _ => []) :=
    h.bind fun a _ => hf a
  have hnone : (script.thence fun _ => []) = [] := by
    unfold thence
    split <;> rfl
  rwa [hnone, List.append_nil] at hbind

theorem Tells.map {script : Script α} {course : List Landmark} (h : pass.Tells script course)
    (f : α → β) : pass.Tells (script >>= fun a => Pure.pure (f a)) course :=
  h.alone fun a => tells_nothing (steps_pure (f a))

theorem tells_collectFrom {item : Nat → Script α} {course : Nat → List Landmark}
    (h : ∀ index, pass.Tells (item index) (course index)) : ∀ count index results,
      pass.Tells (collectFrom item count index results) (courses item course count index)
  | 0, _, _ => tells_nothing rfl
  | count + 1, index, results =>
    (h index).bind fun a _ => tells_collectFrom h count (index + 1) (a :: results)

/-! ## Trees -/

/-- A field that is no sequence is written wholly. -/
theorem tells_leaf (visit : Visit)
    (h : (pass.scriptAt visit).Wholly
      (pass.Posts (visit.scope.field visit.node.label) visit.record visit.node))
    (hnode : visit.node.IsLeaf) :
    pass.Tells (pass.scriptAt visit) [.field visit] := by
  refine tells_field h (fun kept bytes hkept => ?_) fun error herror => ⟨?_, herror⟩
  · rintro ⟨order, horder, hbytes⟩
    rw [pass.posted?_leaf hnode, horder, hkept]
    exact hbytes
  · rw [pass.posted?_leaf hnode, herror]
    exact Option.bind_eq_none_iff.mpr fun _ _ => rfl

theorem tells_opening {kind : IntKind} {name : Option String} {default : Option Value}
    {elements : List Node} {visit : Visit}
    (hnode : visit.node = .mk (.int kind) name default (.sequence elements)) :
    pass.Tells (pass.opening kind name default (visit.scope.field visit.node.label) visit.input
      visit.record) [.field visit] := by
  refine tells_field (pass.opening_wholly _ _ _ _ _ _) (fun supply bytes hok => ?_)
    fun error herror => ⟨?_, ?_⟩
  · rintro ⟨order, n, horder, hn, rfl⟩
    rw [pass.posted?_sequence hnode, horder, hok]
    exact congrArg (fun count => count.toOption.map (kind.encode order)) hn
  · rw [pass.posted?_sequence hnode, herror]
    exact Option.bind_eq_none_iff.mpr fun _ _ => rfl
  · rw [pass.scriptAt_sequence kind elements name default hnode, bind_eq, outcome_bind, herror]
    rfl

theorem tells_inFile (relative : String) (scope : Scope) (record : Fields Value)
    {content : Scope → Fields Value → Script (List Value × Fields Value)}
    {course : Scope → Fields Value → List Landmark}
    (h : ∀ inner record, pass.Tells (content inner record) (course inner record)) :
    pass.Tells (pass.inFile relative scope record content)
      (pass.fileCourse relative scope record content course) := by
  refine (tells_nothing rfl).bind fun inner _ => ?_
  have hopen : pass.Tells (Script.step (.openFile (Path.resolve scope.dir relative)))
      [.opened (Path.resolve scope.dir relative)] :=
    tells_step (fun _ => Landmark.noConfusion) fun hwritten => ⟨hwritten.content, by
      rw [Step.files, hwritten.content, hwritten.files]
      rfl⟩
  have hclose : pass.Tells (Script.step (.closeFile (Path.resolve scope.dir relative)))
      [.closed] :=
    tells_step (fun _ => Landmark.noConfusion) fun hwritten => ⟨rfl, hwritten.files⟩
  refine (tells_event _).then rfl (hopen.then rfl ?_)
  exact (h inner _).bind fun _ _ => hclose.map _

mutual

/-- **The steps of a tree write what its course says.** -/
theorem walk_tells (pass : Pass) (site : Site) (scope : Scope) (input : Input)
    (record : Fields Value) : ∀ node : Node,
      pass.Tells (pass.walk site scope input record node) (pass.course site scope input record node)
  | .mk kind name default payload => by
    let visit : Visit := ⟨site, scope, input, record, .mk kind name default payload⟩
    have hleaf : (pass.walk site scope input record visit.node).Wholly
        (pass.Posts (scope.field visit.node.label) record visit.node) → visit.node.IsLeaf →
        pass.Tells (pass.walk site scope input record visit.node) [.field visit] :=
      tells_leaf visit
    cases kind with
    | order order children =>
      rw [walk, course]
      exact (walkAll_tells pass _ _ _ 0 record children).map _
    | group children =>
      rw [walk, course]
      exact (walkAll_tells pass _ scope _ 0 record children).map _
    | directory path children =>
      rw [walk, course]
      exact (walkAll_tells pass _ _ _ 0 record children).map _
    | file path children =>
      rw [walk, course]
      exact (tells_inFile path scope record fun inner record =>
        walkAll_tells pass _ inner _ 0 record children).map _
    | select choose =>
      rw [walk, course]
      exact (tells_event _).then rfl (walkChosen_tells pass _ scope input record
        (choose (scope.context pass.user record)))
    | text encoding =>
      rw [walk, course]
      exact tells_nothing rfl
    | custom codec =>
      rw [course]
      refine hleaf ?_ nofun
      rw [walk]
      exact pass.custom_wholly name default _ input record codec payload
    | float kind =>
      rw [course]
      refine hleaf ?_ nofun
      rw [walk]
      exact pass.float_wholly name default _ input record kind payload
    | int kind =>
      cases payload with
      | none =>
        rw [course]
        refine hleaf ?_ nofun
        rw [walk]
        exact pass.int_wholly name default _ input record kind
      | text text =>
        rw [course]
        refine hleaf ?_ nofun
        rw [walk]
        exact pass.string_wholly name default _ input record kind text
      | sequence elements =>
        -- the count is a piece of its own: it stays when an item fails
        rw [course]
        show pass.Tells (pass.scriptAt ⟨site, scope, input, record, _⟩) _
        rw [pass.scriptAt_sequence kind elements name default rfl]
        refine (tells_opening rfl).bind fun supply _ => ?_
        refine Tells.map (tells_collectFrom (fun index => ?_) supply.length 0 []) _
        refine (tells_of_silent (pass.silent_pull _ supply index)).bind fun item _ => ?_
        exact (walkAll_tells pass _ _ _ 0 [] elements).alone fun _ => (tells_event _).map _
termination_by structural node => node

theorem walkChosen_tells (pass : Pass) (site : Site) (scope : Scope) (input : Input)
    (record : Fields Value) : ∀ chosen : Noted Node,
      pass.Tells (pass.walkChosen site scope input record chosen)
        (pass.courseChosen site scope input record chosen)
  | ⟨node, notes⟩ => by
    rw [walkChosen, courseChosen]
    exact (tells_of_silent (silent_notes notes)).then (outcome_notes notes)
      ((tells_nothing rfl).bind fun schema _ =>
        walk_tells pass schema.rootSite scope input record node)
termination_by structural chosen => chosen

theorem walkAll_tells (pass : Pass) (site : Site) (scope : Scope) (inputs : Nat → Input)
    (index : Nat) (record : Fields Value) : ∀ nodes : List Node,
      pass.Tells (pass.walkAll site scope inputs index record nodes)
        (pass.courseAll site scope inputs index record nodes)
  | [] => by
    rw [walkAll, courseAll]
    exact tells_nothing rfl
  | node :: rest => by
    rw [walkAll, courseAll]
    exact (walk_tells pass site scope (inputs index) record node).bind fun kept _ =>
      (walkAll_tells pass site scope inputs (index + 1) kept.2 rest).map _
termination_by structural nodes => nodes

end

end Pass

namespace Stage

/-- What is put away in the end keeps what it has accepted. -/
theorem held_abandon (stage : Stage) :
    stage.abandon.streams.toList.map held = stage.promised [] := by
  rw [promised_nil]
  obtain ⟨journal, streams, current⟩ := stage
  cases current with
  | none => exact (List.append_nil _).symm
  | some stream =>
    have habort : held stream.abort = held stream := by
      unfold WriteStream.abort
      split <;> rfl
    show (streams.push stream.abort).toList.map held = _
    rw [Array.toList_push, List.map_append, List.map_singleton, habort]
    rfl

end Stage

end Write

open Write

/-! ## Whole passes -/

namespace Schema

/-- What a write pass comes to, up to where it ends. -/
def course (schema : Schema) (provider : Provider) (options : Options) : List Landmark :=
  let pass := schema.writePass options
  if schema.fileCount = 0 then
    (Script.ofExcept (splitTarget options.path)).thence fun (dir, name) =>
      pass.fileCourse name (.base dir) []
        (fun scope record =>
          pass.walkAll schema.rootSite scope (fun _ => .within provider) 0 record [schema.root])
        fun scope record =>
          pass.courseAll schema.rootSite scope (fun _ => .within provider) 0 record [schema.root]
  else
    pass.course schema.rootSite (.base options.path) (.within provider) [] schema.root

theorem writeScript_tells (schema : Schema) (provider : Provider) (options : Options) :
    (schema.writePass options).Tells (schema.writeScript provider options)
      (schema.course provider options) := by
  unfold writeScript course
  dsimp only
  split
  · refine (Pass.tells_nothing rfl).bind fun target _ => ?_
    refine (Pass.tells_event _).then rfl ?_
    exact Pass.tells_inFile target.2 _ [] fun inner record =>
      Pass.walkAll_tells _ schema.rootSite inner _ 0 record [schema.root]
  · exact (Pass.walk_tells _ schema.rootSite _ _ [] schema.root).map _

/-- **No field is half written.** On sinks that do not fail, what the stream of a file has accepted
is what the fields of the file have written that the pass got past, in the order of their
declaration: the whole encoding of each, and of a sequence that is begun the count. The pass gets
past all fields that it comes to, unless it ends with the error of the last one, of which nothing is
there. -/
theorem write_in_one_piece (schema : Schema) (provider : Provider) (options : Options)
    {opener : SinkOpener} (hopener : opener.NeverFails) :
    let pass := schema.writePass options
    let course := schema.course provider options
    let report := schema.write provider options opener
    report.streams.toList.map Stage.held = Landmark.files pass course ∧
      (∀ mark ∈ course.dropLast, mark.Passed pass) ∧
      ∀ visit, .field visit ∈ course → pass.posted? visit = none →
        course.getLast? = some (.field visit) ∧
          ∃ error, (pass.scriptAt visit).outcome = .error error ∧ report.result = .error error := by
  intro pass course report
  have htells : pass.Tells (schema.writeScript provider options) course :=
    schema.writeScript_tells provider options
  obtain ⟨last, hlast, -⟩ := schema.writeScript_orderly provider options
  obtain ⟨later, -, hpromised, hresult, hstreams, -⟩ := Script.play_sound
    (sound_setup hopener options) (schema.writeScript provider options) (options.warnings .write)
    hlast
  have hwritten : Landmark.Written pass (course ++ [])
      ((schema.writeScript provider options).steps ++ []) := htells.written ⟨rfl, rfl⟩
  rw [List.append_nil, List.append_nil] at hwritten
  refine ⟨?_, htells.passed, fun visit hvisit hnone => ⟨?_, ?_⟩⟩
  · show (Script.play _ _ _).streams.toList.map Stage.held = _
    rw [hstreams, Stage.held_abandon, hpromised, hwritten.files]
  · have hne := List.ne_nil_of_mem hvisit
    rw [← List.dropLast_append_getLast hne, List.mem_append, List.mem_singleton] at hvisit
    rcases hvisit with hvisit | hvisit
    · have hsome := htells.passed _ hvisit
      rw [Landmark.Passed, hnone] at hsome
      cases hsome
    · rw [List.getLast?_eq_some_getLast hne, ← hvisit]
  · obtain ⟨error, hfails, herror⟩ := htells.fails visit hvisit hnone
    exact ⟨error, hfails, hresult.trans herror⟩

/-! ## A line that has no bytes -/

/-- Lines of text behind their number. -/
def lines : Schema :=
  ⟨.ofKind (.order .big [(byteField "lines").withSequence
    [(Node.ofKind (.int .u8)).withString (.ofKind (.text .latin1))]]), .root, rfl⟩

/-- Two lines, of which the second cannot be encoded. -/
def prices : Provider :=
  .record [("lines", .list [.value (.string "ab"), .value (.string "€")])]

/-- The second line is the last that is come to, and has no bytes. -/
theorem course_lines : ∃ before visit,
    lines.course prices taggedOptions = before ++ [.field visit] ∧
      Landmark.files (lines.writePass taggedOptions) (lines.course prices taggedOptions) =
        [(Path.resolve "" "out", [2, 2, 97, 98])] ∧
      (lines.writePass taggedOptions).posted? visit = none := by
  unfold course
  rw [show splitTarget taggedOptions.path = _ from splitTarget_out]
  exact ⟨[_, _, _], _, rfl, rfl, rfl⟩

theorem write_in_one_piece_lines :
    let report := lines.write prices taggedOptions fun _ _ => .ok .faultless
    report.streams.toList.map Stage.held = [(Path.resolve "" "out", [2, 2, 97, 98])] ∧
      ∃ error, report.result = .error error := by
  intro report
  obtain ⟨hfiles, -, hfails⟩ := Schema.write_in_one_piece lines prices taggedOptions
    SinkOpener.neverFails_faultless
  obtain ⟨before, visit, hcourse, hheld, hnone⟩ := course_lines
  obtain ⟨-, error, -, herror⟩ :=
    hfails visit (hcourse ▸ List.mem_append_right before List.mem_cons_self) hnone
  exact ⟨hfiles.trans hheld, error, herror⟩

end Schema

end ByteLayout
