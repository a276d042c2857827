import ByteLayout.Proofs.Progress

/-!
# Paths of inner sequences

A sequence may lie in the items of another, and both may be lazy. What is told of a lazy sequence
carries its path, and within a file the walk only makes paths longer, so what an item tells of inner
sequences is not mistaken for what is told of its own.

**Theorem (`Pass.walk_lazyBelow`).** Within a file, the script of a tree only tells of lazy
sequences with longer paths than the one that it starts from.
-/

namespace ByteLayout

namespace Scope

variable (scope : Scope)

theorem length_trail_field (segment : String) :
    scope.trail.length < (scope.field segment).trail.length := by
  show _ < (scope.trail ++ "/" ++ segment).length
  rw [String.length_append, String.length_append]
  exact Nat.lt_add_right _ (Nat.lt_succ_self _)

theorem length_trail_item (index : Nat) :
    scope.trail.length < (scope.item index).trail.length := by
  show _ < (scope.trail ++ "/[" ++ toString index ++ "]").length
  rw [String.length_append, String.length_append, String.length_append]
  exact Nat.lt_add_right _ (Nat.lt_add_right _ (Nat.lt_add_of_pos_right (Nat.succ_pos 1)))

theorem length_trail_enterDir {scope : Scope} (h : scope.file.isSome = true) (relative : String) :
    scope.trail.length ≤ (scope.enterDir relative).trail.length := by
  obtain ⟨path, hpath⟩ := Option.isSome_iff_exists.mp h
  unfold enterDir
  rw [hpath]
  exact Nat.le_of_lt (scope.length_trail_field relative)

end Scope

namespace Write

/-- The path of the lazy sequence that a step tells of: its generator is called, or one of its items
is pulled. -/
def Step.lazyPath? : Step → Option String
  | .record (.call (.generate context)) => some context.path
  | .record (.pulled path _) => some path
  | _ => none

namespace Script

variable {α β : Type} {least : Nat}

/-- Whether all lazy sequences that a script tells of have longer paths. -/
def LazyBelow (least : Nat) (script : Script α) : Prop :=
  ∀ step ∈ script.steps, ∀ path ∈ step.lazyPath?, least < path.length

theorem lazyBelow_of_no_steps {script : Script α} (h : script.steps = []) :
    script.LazyBelow least := by
  intro step hstep
  rw [h] at hstep
  cases hstep

theorem lazyBelow_step {step : Step} (h : ∀ path ∈ step.lazyPath?, least < path.length) :
    (Script.step step).LazyBelow least := by
  intro other hother
  obtain rfl := List.mem_singleton.mp hother
  exact h

/-- A step that tells of no lazy sequence. -/
theorem lazyBelow_eager {step : Step} (h : step.lazyPath? = none) :
    (Script.step step).LazyBelow least :=
  lazyBelow_step fun path hpath => by
    rw [h] at hpath
    cases hpath

theorem LazyBelow.bind {script : Script α} {f : α → Script β} (h : script.LazyBelow least)
    (hf : ∀ a, (f a).LazyBelow least) : (script >>= f).LazyBelow least :=
  forall_steps_bind h hf

theorem LazyBelow.map {script : Script α} (h : script.LazyBelow least) (f : α → β) :
    (script >>= fun a => Pure.pure (f a)).LazyBelow least :=
  h.bind fun _ => lazyBelow_of_no_steps rfl

theorem lazyBelow_notes (notes : List Note) : (Script.notes notes).LazyBelow least := by
  intro step hstep
  rw [steps_notes] at hstep
  obtain ⟨note, -, rfl⟩ := List.mem_map.mp hstep
  nofun

theorem lazyBelow_called {call : Call} (answer : Noted α)
    (h : ∀ path ∈ (Step.record (.call call)).lazyPath?, least < path.length) :
    (Script.called call answer).LazyBelow least :=
  (lazyBelow_step h).bind fun _ => (lazyBelow_notes answer.notes).map fun _ => answer.value

end Script

namespace Pass

open Script

variable (pass : Pass) (name : Option String) (default : Option Value) (scope : Scope)
  (input : Input) (record : Fields Value) {least : Nat}

/-! ## Fields -/

theorem lazyBelow_compute (provider : Provider) :
    (pass.compute scope record provider).LazyBelow least := by
  cases provider with
  | computed f => exact lazyBelow_called _ nofun
  | _ => exact lazyBelow_of_no_steps rfl

theorem lazyBelow_provided : (pass.provided name scope input record).LazyBelow least := by
  unfold provided
  split
  · exact lazyBelow_of_no_steps rfl
  · exact (pass.lazyBelow_compute scope record _).map some

theorem lazyBelow_literal : (pass.literal name scope input record).LazyBelow least :=
  (pass.lazyBelow_provided name scope input record).map _

theorem lazyBelow_resolve (kind : String) :
    (pass.resolve kind name default scope input record).LazyBelow least := by
  refine (pass.lazyBelow_literal name scope input record).bind fun given => ?_
  split
  · exact lazyBelow_of_no_steps rfl
  · exact (lazyBelow_eager rfl).map _

theorem lazyBelow_supplier :
    (pass.supplier name default scope input record).LazyBelow least := by
  refine (pass.lazyBelow_provided name scope input record).bind fun provider => ?_
  split <;> exact lazyBelow_of_no_steps rfl

theorem lazyBelow_scalar (kind : String) (bytes : List UInt8) :
    (scalar scope kind bytes).LazyBelow least :=
  (lazyBelow_eager rfl).bind fun _ => lazyBelow_eager rfl

theorem int_lazyBelow (kind : IntKind) :
    (pass.int kind name default scope input record).LazyBelow least := by
  refine (lazyBelow_of_no_steps rfl).bind fun order => ?_
  refine (pass.lazyBelow_resolve name default scope input record _).bind fun value => ?_
  refine (lazyBelow_of_no_steps (steps_ofCheck _ _)).bind fun n => ?_
  exact (lazyBelow_scalar scope _ _).map _

theorem float_lazyBelow (kind : FloatKind) :
    (pass.float kind name default scope input record).LazyBelow least := by
  refine (lazyBelow_of_no_steps rfl).bind fun order => ?_
  refine (pass.lazyBelow_resolve name default scope input record _).bind fun value => ?_
  refine (lazyBelow_of_no_steps (steps_ofCheck _ _)).bind fun x => ?_
  exact (lazyBelow_scalar scope _ _).map _

theorem string_lazyBelow (kind : IntKind) (text : Node) :
    (pass.string kind text name default scope input record).LazyBelow least := by
  refine (lazyBelow_of_no_steps rfl).bind fun order => ?_
  split
  · refine (pass.lazyBelow_resolve name _ scope input record _).bind fun value => ?_
    refine (lazyBelow_of_no_steps (steps_ofCheck _ _)).bind fun content => ?_
    refine (lazyBelow_of_no_steps (steps_ofCheck _ _)).bind fun bytes => ?_
    refine (lazyBelow_of_no_steps (steps_ofCheck _ _)).bind fun length => ?_
    exact (lazyBelow_scalar scope _ _).bind fun _ => (lazyBelow_eager rfl).map _
  · exact lazyBelow_of_no_steps rfl

theorem custom_lazyBelow (codec : Codec) (kind : String) :
    (pass.custom codec kind name default scope input record).LazyBelow least := by
  refine (lazyBelow_of_no_steps rfl).bind fun order => ?_
  refine (pass.lazyBelow_literal name scope input record).bind fun given => ?_
  refine (lazyBelow_called _ fun path hpath => ?_).bind fun encoded => ?_
  · cases hpath
  split
  · exact lazyBelow_of_no_steps rfl
  · exact (lazyBelow_eager rfl).bind fun _ => (lazyBelow_eager rfl).map _

/-! ## Sequences -/

variable {scope}

theorem lazyBelow_supply (hscope : least < scope.trail.length) (provider : Provider) :
    (pass.supply scope record provider).LazyBelow least := by
  cases provider with
  | lazy generate =>
    refine (lazyBelow_called _ fun path hpath => ?_).bind fun _ =>
      (lazyBelow_eager rfl).map _
    obtain rfl := Option.some.inj hpath
    exact hscope
  | _ => exact lazyBelow_of_no_steps rfl

theorem lazyBelow_pull (hscope : least < scope.trail.length) (supply : Supply) (index : Nat) :
    (pass.pull scope supply index).LazyBelow least := by
  have hpulled : (Script.step (.record (.pulled scope.trail index))).LazyBelow least :=
    lazyBelow_step fun path hpath => by
      obtain rfl := Option.some.inj hpath
      exact hscope
  unfold pull
  split
  · exact hpulled.bind fun _ => (lazyBelow_notes _).bind fun _ => pass.lazyBelow_compute _ _ _
  · exact pass.lazyBelow_compute _ _ _

theorem sequence_lazyBelow (hscope : least < scope.trail.length) (kind : IntKind)
    (elements : List Node) {content : Scope → Provider → Script (List Value × Fields Value)}
    (hcontent : ∀ index item, (content (scope.item index) item).LazyBelow least) :
    (pass.sequence kind elements name default scope input record content).LazyBelow least := by
  refine (lazyBelow_of_no_steps rfl).bind fun order => ?_
  refine (pass.lazyBelow_supplier name default scope input record).bind fun provider => ?_
  refine (pass.lazyBelow_supply record hscope provider).bind fun supply => ?_
  refine (lazyBelow_of_no_steps (steps_ofCheck _ _)).bind fun count => ?_
  refine (lazyBelow_scalar scope _ _).bind fun _ => ?_
  refine LazyBelow.map (forall_steps_collectFrom (fun index => ?_) supply.length 0 []) _
  refine (pass.lazyBelow_pull hscope supply index).bind fun item => ?_
  exact (hcontent index item).bind fun _ => (lazyBelow_eager rfl).map _

/-- Within a file no file is opened, so nothing is told. -/
theorem inFile_lazyBelow (hfile : scope.file.isSome = true) (relative : String)
    (content : Scope → Fields Value → Script (List Value × Fields Value)) :
    (pass.inFile relative scope record content).LazyBelow least := by
  have hrefused : (Script.ofExcept (scope.enterFile relative)).outcome = _ :=
    Scope.enterFile_refused hfile relative
  exact lazyBelow_of_no_steps (steps_bind_of_error hrefused)

/-! ## Trees -/

mutual

/-- **Within a file, a tree only tells of lazy sequences with longer paths.** -/
theorem walk_lazyBelow (site : Site) {scope : Scope} (hfile : scope.file.isSome = true)
    (hscope : least ≤ scope.trail.length) (input : Input) (record : Fields Value) :
    ∀ node : Node, (pass.walk site scope input record node).LazyBelow least
  | .mk kind name default payload => by
    have hfield : ∀ segment, least < (scope.field segment).trail.length := fun segment =>
      Nat.lt_of_le_of_lt hscope (scope.length_trail_field segment)
    cases kind with
    | order order children =>
      have horder : (scope.withOrder order).file.isSome = true := hfile
      rw [walk]
      exact (walkAll_lazyBelow _ horder hscope _ 0 record children).map _
    | group children =>
      rw [walk]
      exact (walkAll_lazyBelow _ hfile hscope _ 0 record children).map _
    | directory path children =>
      have hdir : (scope.enterDir path).file.isSome = true := hfile
      have htrail := Nat.le_trans hscope (Scope.length_trail_enterDir hfile path)
      rw [walk]
      exact (walkAll_lazyBelow _ hdir htrail _ 0 record children).map _
    | file path children =>
      rw [walk]
      exact (pass.inFile_lazyBelow record hfile path _).map _
    | select choose =>
      rw [walk]
      exact (lazyBelow_eager rfl).bind fun _ => walkChosen_lazyBelow _ hfile hscope input record
        (choose (scope.context pass.user record))
    | custom codec =>
      rw [walk]
      exact pass.custom_lazyBelow name default _ input record codec _
    | text encoding =>
      rw [walk]
      exact lazyBelow_of_no_steps rfl
    | float kind =>
      rw [walk]
      exact pass.float_lazyBelow name default _ input record kind
    | int kind =>
      cases payload with
      | none =>
        rw [walk]
        exact pass.int_lazyBelow name default _ input record kind
      | text text =>
        rw [walk]
        exact pass.string_lazyBelow name default _ input record kind text
      | sequence elements =>
        rw [walk]
        refine pass.sequence_lazyBelow name default input record (hfield _) kind elements
          fun index item => ?_
        have hitem := Nat.lt_trans (hfield (Node.label (.mk (.int kind) name default
          (.sequence elements)))) (Scope.length_trail_item _ index)
        have hinner : Option.isSome (Scope.file (.item (scope.field
          (Node.label (.mk (.int kind) name default (.sequence elements)))) index)) = true := hfile
        exact walkAll_lazyBelow _ hinner (Nat.le_of_lt hitem) _ 0 [] elements
termination_by structural node => node

theorem walkChosen_lazyBelow (site : Site) {scope : Scope} (hfile : scope.file.isSome = true)
    (hscope : least ≤ scope.trail.length) (input : Input) (record : Fields Value) :
    ∀ chosen : Noted Node, (pass.walkChosen site scope input record chosen).LazyBelow least
  | ⟨node, notes⟩ => by
    rw [walkChosen]
    exact (lazyBelow_notes notes).bind fun _ => (lazyBelow_of_no_steps rfl).bind fun schema =>
      walk_lazyBelow schema.rootSite hfile hscope input record node
termination_by structural chosen => chosen

theorem walkAll_lazyBelow (site : Site) {scope : Scope} (hfile : scope.file.isSome = true)
    (hscope : least ≤ scope.trail.length) (inputs : Nat → Input) (index : Nat)
    (record : Fields Value) : ∀ nodes : List Node,
      (pass.walkAll site scope inputs index record nodes).LazyBelow least
  | [] => by
    rw [walkAll]
    exact lazyBelow_of_no_steps rfl
  | node :: rest => by
    rw [walkAll]
    exact (walk_lazyBelow site hfile hscope (inputs index) record node).bind fun kept =>
      (walkAll_lazyBelow site hfile hscope inputs (index + 1) kept.2 rest).map _
termination_by structural nodes => nodes

end

end Pass

end Write

end ByteLayout
