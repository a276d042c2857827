import ByteLayout.Proofs.Faults
import ByteLayout.Proofs.Isolation
import ByteLayout.Proofs.Parsing
import ByteLayout.Proofs.Truncation

/-!
# The last field of a file

Within a file a write pass comes to one field after the other, and the bytes of the last one are the
end of the file. Where it stands, what is in its scope and in the record by then, is found by
walking the tree (`Write.Pass.last?`): nodes that only arrange others, and hold no field, write
nothing and keep nothing (`Node.bare`).

**Bridge (`Retraces.parse`).** A plan that retraces steps inside a file parses the bytes of these
steps, and leaves over what comes behind them.

**Theorem (`walk_ends`).** The script of a tree ends with that of its last field, and the plan of
the tree, having parsed what was written before, goes on with the plan of that field. Nothing is
said of the field itself: the two passes may part there.
-/

namespace ByteLayout

/-- Whether the layout alone says what nodes of a kind describe: they open no file, and no callback
picks, writes or reads them. -/
def Kind.Fixed : Kind → Prop
  | .custom _ | .select _ | .file _ _ => False
  | _ => True

theorem Kind.Fixed.retraceable {kind : Kind} (h : kind.Fixed) (aligned : Prop) :
    kind.Retraceable aligned := by
  cases kind with
  | custom codec => exact h
  | select choose => exact absurd h id
  | _ => trivial

theorem Kind.Fixed.builtIn {kind : Kind} (h : kind.Fixed) : kind.BuiltIn := by
  cases kind with
  | custom codec => exact h
  | _ => trivial

namespace Node

/-- A tree of fixed kinds has no files. -/
theorem fileCount_of_fixed {node : Node} (h : node.Every Kind.Fixed) : node.fileCount = 0 := by
  have hall : ∀ nodes : List Node, (∀ node ∈ nodes, node.fileCount = 0) → filesInAll nodes = 0 := by
    intro nodes hnodes
    induction nodes with
    | nil => rfl
    | cons node rest ih =>
      rw [filesInAll, hnodes node List.mem_cons_self,
        ih fun other hother => hnodes other (List.mem_cons_of_mem _ hother)]
  induction node using induct with
  | node node hpayload hchildren =>
  obtain ⟨hkind, hparts, hbelow, -⟩ := every_iff.mp h
  have hfile : node.kind.isFile = false := by
    cases hcase : node.kind with
    | file path children =>
      rw [hcase] at hkind
      exact absurd hkind id
    | _ => rfl
  rw [fileCount_eq, hall _ fun part hpart => hpayload part hpart (hparts part hpart),
    hall _ fun child hchild => hchildren child hchild (hbelow child hchild), hfile]
  rfl

/-- Whether a tree was accepted at some place and has only nodes of fixed kinds. -/
structure Settled (placement : Placement) (node : Node) : Prop where
  fixed : node.Every Kind.Fixed
  admitted : node.Admitted placement

theorem Settled.children {placement : Placement} {node : Node} (h : node.Settled placement) :
    ∀ child ∈ node.kind.children, child.Settled .child := fun child hchild =>
  ⟨(every_iff.mp h.fixed).2.2.1 child hchild, h.admitted.parts.2.2 child hchild⟩

theorem Settled.parts {placement : Placement} {node : Node} (h : node.Settled placement) :
    ∀ part ∈ node.payload.nodes, part.Settled node.payload.placement := fun part hpart =>
  ⟨(every_iff.mp h.fixed).2.1 part hpart, h.admitted.parts.2.1 part hpart⟩

mutual

/-- Whether there is no field in a tree, nor a text: nothing but byte orders, groups and
directories. -/
def bare : Node → Bool
  | .mk kind _ _ _ =>
    match kind with
    | .order _ children => allBare children
    | .group children => allBare children
    | .directory _ children => allBare children
    | _ => false
termination_by structural node => node

def allBare : List Node → Bool
  | [] => true
  | node :: rest => bare node && allBare rest
termination_by structural nodes => nodes

end

end Node

namespace Write

/-- A node that a write pass comes to, with all that its script depends on. -/
structure Visit where
  site : Site
  scope : Scope
  input : Input
  record : Fields Value
  node : Node

/-- Whether a pass comes to a node in a file, and the node is settled at its place. -/
structure Visit.Proper (visit : Visit) : Prop where
  inFile : visit.scope.file.isSome = true
  settled : visit.node.Settled visit.site.placement

namespace Pass

variable (pass : Pass)

/-- The script of a node where the pass comes to it. -/
def scriptAt (visit : Visit) : Script Kept :=
  pass.walk visit.site visit.scope visit.input visit.record visit.node

mutual

/-- The last node below a node to which a pass comes and that does not only arrange others. -/
def last? (site : Site) (scope : Scope) (input : Input) (record : Fields Value) :
    Node → Option Visit
  | .mk kind name default payload =>
    let node := Node.mk kind name default payload
    match kind with
    | .order order children =>
      lastOf? (site.below .child node) (scope.withOrder order) (fun _ => input.enter) 0 record
        children
    | .group children =>
      lastOf? (site.below .child node) scope (fun _ => input.enter) 0 record children
    | .directory path children =>
      lastOf? (site.below .child node) (scope.enterDir path) (fun _ => input.below path) 0 record
        children
    | _ => some ⟨site, scope, input, record, node⟩
termination_by structural node => node

/-- The last of several nodes. The record is what the pass has kept by then. -/
def lastOf? (site : Site) (scope : Scope) (inputs : Nat → Input) (index : Nat)
    (record : Fields Value) : List Node → Option Visit
  | [] => none
  | node :: rest =>
    if Node.allBare rest then last? site scope (inputs index) record node
    else
      match (pass.walk site scope (inputs index) record node).outcome with
      | .ok kept => lastOf? site scope inputs (index + 1) kept.2 rest
      | .error _ => none
termination_by structural nodes => nodes

end

end Pass

end Write

/-! ## Parsing what is retraced -/

namespace Read

open Write

/-- **What is retraced inside a file is parsed from its bytes.** -/
theorem Retraces.parse {aligned : Prop} {α : Type} {plan : Plan α} {steps : List Step} {a : α}
    (h : Retraces aligned plan steps a) (hinside : ∀ step ∈ steps, step.Inside)
    (rest : List UInt8) : plan.parse (Step.content [] steps ++ rest) = .ok (a, rest) := by
  have htake : ∀ (bytes : List UInt8) (after : List UInt8 → Plan α) (more : List UInt8),
      Plan.consume bytes.length (fun first => (after first).parse) (bytes ++ more) =
        (after bytes).parse more := by
    intro bytes after more
    unfold Plan.consume
    rw [if_pos (by simp), List.take_left, List.drop_left]
  induction h with
  | done a => rfl
  | ahead _ _ ih => exact ih (List.forall_mem_cons.mp hinside).2
  | aside _ _ ih => exact ih hinside
  | select _ _ ih => exact ih (List.forall_mem_cons.mp hinside).2
  | field kind _ _ ih => exact ih (List.forall_mem_cons.mp hinside).2
  | fetch bytes _ ih =>
    rw [Step.content, List.append_assoc]
    exact (htake bytes _ _).trans (ih (List.forall_mem_cons.mp hinside).2)
  | read bytes _ ih =>
    rw [Step.content, List.append_assoc]
    exact (htake bytes _ _).trans (ih (List.forall_mem_cons.mp hinside).2)
  | openFile _ _ _ => exact absurd (List.forall_mem_cons.mp hinside).1 id
  | closeFile _ _ _ => exact absurd (List.forall_mem_cons.mp hinside).1 id

/-! ## Nodes without fields -/

namespace Pass

mutual

/-- A tree without fields writes nothing, reads nothing and keeps nothing. -/
theorem walk_bare (wpass : Write.Pass) (pass : Pass) (site : Site) (scope other : Scope)
    (input : Input) : ∀ node : Node, node.bare = true → ∀ record : Fields Value,
      wpass.walk site scope input record node = pure (.null, record) ∧
        pass.walk site other none record node = pure (.null, record)
  | .mk kind name default payload => by
    intro hnode record
    have harrange : ∀ values : List Value,
        Write.Pass.arrange (pure (values, record)) = pure (.null, record) ∧
          arrange (pure (values, record)) = pure (.null, record) := fun _ => ⟨rfl, rfl⟩
    cases kind with
    | order order children =>
      rw [Node.bare] at hnode
      obtain ⟨values, hwrite, hread⟩ := walkAll_bare wpass pass (site.below .child _)
        (scope.withOrder order) (other.withOrder order) (fun _ => input.enter) 0 children hnode
      rw [Write.Pass.walk, Pass.walk, hwrite record, hread record]
      exact harrange values
    | group children =>
      rw [Node.bare] at hnode
      obtain ⟨values, hwrite, hread⟩ := walkAll_bare wpass pass (site.below .child _)
        scope other (fun _ => input.enter) 0 children hnode
      rw [Write.Pass.walk, Pass.walk, hwrite record, hread record]
      exact harrange values
    | directory path children =>
      rw [Node.bare] at hnode
      obtain ⟨values, hwrite, hread⟩ := walkAll_bare wpass pass (site.below .child _)
        (scope.enterDir path) (other.enterDir path) (fun _ => input.below path) 0 children hnode
      rw [Write.Pass.walk, Pass.walk, hwrite record]
      refine ⟨(harrange values).1, ?_⟩
      rw [show (none : Option Transform).bind (·.field? path) = none from rfl, hread record]
      exact (harrange values).2
    | _ =>
      rw [Node.bare] at hnode
      · cases hnode
      all_goals exact nofun
termination_by structural node => node

theorem walkAll_bare (wpass : Write.Pass) (pass : Pass) (site : Site) (scope other : Scope)
    (inputs : Nat → Input) (index : Nat) : ∀ nodes : List Node, Node.allBare nodes = true →
      ∃ values : List Value,
        (∀ record, wpass.walkAll site scope inputs index record nodes = pure (values, record)) ∧
          ∀ record, pass.walkAll site other none record nodes = pure (values, record)
  | [] => by
    intro _
    refine ⟨[], fun record => ?_, fun record => ?_⟩
    · rw [Write.Pass.walkAll]
    · rw [Pass.walkAll]
  | node :: rest => by
    intro hnodes
    rw [Node.allBare, Bool.and_eq_true] at hnodes
    obtain ⟨values, hwrite, hread⟩ :=
      walkAll_bare wpass pass site scope other inputs (index + 1) rest hnodes.2
    have hnode := walk_bare wpass pass site scope other (inputs index) node hnodes.1
    refine ⟨.null :: values, fun record => ?_, fun record => ?_⟩
    · rw [Write.Pass.walkAll, (hnode record).1]
      show (wpass.walkAll site scope inputs (index + 1) record rest >>= _) = _
      rw [hwrite record]
      rfl
    · rw [Pass.walkAll, (hnode record).2]
      show (pass.walkAll site other none record rest >>= _) = _
      rw [hread record]
      rfl
termination_by structural nodes => nodes

end

end Pass

/-! ## The last field -/

/-- A script ends with that of a field, and a plan with the plan of the field: the same bytes stand
before it, and the results are made of its result. -/
structure Ends {α : Type} (script : Script α) (plan : Plan α) (last : Script Kept)
    (lastPlan : Plan Kept) (before : List Step) (finish : Kept → α) : Prop where
  outcome : script.outcome = last.outcome.map finish
  steps : script.steps = before ++ last.steps
  parse : (∀ step ∈ before, step.Faithful) → ∀ bytes,
    plan.parse (Step.content [] before ++ bytes) = (lastPlan.parse bytes).map (Prod.map finish id)

namespace Ends

variable {α β : Type} {script : Script α} {plan : Plan α} {last : Script Kept}
  {lastPlan : Plan Kept} {before : List Step} {finish : Kept → α}

theorem refl (last : Script Kept) (lastPlan : Plan Kept) :
    Ends last lastPlan last lastPlan [] id := by
  refine ⟨?_, rfl, fun _ bytes => ?_⟩
  · cases last.outcome <;> rfl
  · show lastPlan.parse bytes = _
    cases lastPlan.parse bytes <;> rfl

/-- What is done with the result takes no step and no bytes. -/
theorem map (h : Ends script plan last lastPlan before finish) (f : α → β) :
    Ends (script >>= fun a => pure (f a)) (plan >>= fun a => pure (f a)) last lastPlan before
      (f ∘ finish) := by
  refine ⟨?_, ?_, fun hfaithful bytes => ?_⟩
  · rw [Script.bind_eq, Script.outcome_bind, h.outcome]
    cases last.outcome <;> rfl
  · rw [Script.bind_eq, Script.steps_bind, h.steps]
    cases script.outcome <;> exact List.append_nil _
  · rw [Plan.parse_bind, h.parse hfaithful]
    cases lastPlan.parse bytes <;> rfl

/-- What comes first is written, and parsed, before. -/
theorem after {first : Script β} {firstPlan : Plan β} {f : β → Script α} {g : β → Plan α} {b : β}
    (hfirst : first.outcome = .ok b) (hfollows : Follows False firstPlan first)
    (hinside : first.Inside) (h : Ends (f b) (g b) last lastPlan before finish) :
    Ends (first >>= f) (firstPlan >>= g) last lastPlan (first.steps ++ before) finish := by
  refine ⟨(Script.outcome_bind_of_ok hfirst).trans h.outcome, ?_, fun hfaithful bytes => ?_⟩
  · rw [Script.steps_bind_of_ok hfirst, h.steps, List.append_assoc]
  · obtain ⟨hbefore, hrest⟩ := List.forall_mem_append.mp hfaithful
    rw [Step.content_append_of_inside _ hinside, List.append_assoc, Plan.parse_bind,
      (hfollows b hfirst hbefore).parse hinside]
    exact h.parse hrest bytes

end Ends

/-- The last field of a script and of a plan, and where it stands: the record that it leaves is the
one that is left in the end. -/
structure Leads {α : Type} (wpass : Write.Pass) (pass : Pass) (visit : Visit)
    (script : Script (α × Fields Value)) (plan : Plan (α × Fields Value)) : Prop where
  proper : visit.Proper
  ends : ∃ entered, visit.scope.Mirrors False entered ∧ ∃ before finish,
    (∀ kept : Kept, (finish kept).2 = kept.2) ∧
      Ends script plan (wpass.scriptAt visit)
        (pass.walk visit.site entered none visit.record visit.node) before finish

namespace Leads

variable {wpass : Write.Pass} {pass : Pass} {visit : Visit} {α β : Type}

theorem map {script : Script (α × Fields Value)} {plan : Plan (α × Fields Value)}
    (h : Leads wpass pass visit script plan) (f : α → β) :
    Leads wpass pass visit (script >>= fun a => pure (f a.1, a.2))
      (plan >>= fun a => pure (f a.1, a.2)) := by
  obtain ⟨hproper, entered, hmirrors, before, finish, hrecord, hends⟩ := h
  exact ⟨hproper, entered, hmirrors, before, _, hrecord, hends.map fun a => (f a.1, a.2)⟩

theorem arrange {script : Script (List Value × Fields Value)}
    {plan : Plan (List Value × Fields Value)} (h : Leads wpass pass visit script plan) :
    Leads wpass pass visit (Write.Pass.arrange script) (Pass.arrange plan) :=
  h.map fun _ => Value.null

theorem after {first : Script β} {firstPlan : Plan β} {f : β → Script (α × Fields Value)}
    {g : β → Plan (α × Fields Value)} {b : β} (hfirst : first.outcome = .ok b)
    (hfollows : Follows False firstPlan first) (hinside : first.Inside)
    (h : Leads wpass pass visit (f b) (g b)) :
    Leads wpass pass visit (first >>= f) (firstPlan >>= g) := by
  obtain ⟨hproper, entered, hmirrors, before, finish, hrecord, hends⟩ := h
  exact ⟨hproper, entered, hmirrors, _, finish, hrecord, .after hfirst hfollows hinside hends⟩

end Leads

namespace Pass

variable {wpass : Write.Pass} {pass : Pass} {visit : Visit}

mutual

/-- **The passes of a tree end with those of its last field.** -/
theorem walk_ends (hpass : wpass.Mirrors False pass) (site : Site) {scope other : Scope}
    (h : scope.Mirrors False other) (hfile : scope.file.isSome = true) (input : Input)
    (record : Fields Value) : ∀ node : Node, node.Settled site.placement →
      wpass.last? site scope input record node = some visit →
        Leads wpass pass visit (wpass.walk site scope input record node)
          (pass.walk site other none record node)
  | .mk kind name default payload => by
    intro hnode hlast
    -- a node that does more than arrange others is the last by itself
    have hself : ∀ found : Visit, some found = some visit →
        found = ⟨site, scope, input, record, .mk kind name default payload⟩ →
          Leads wpass pass visit
            (wpass.walk site scope input record (.mk kind name default payload))
            (pass.walk site other none record (.mk kind name default payload)) := by
      rintro found hfound rfl
      obtain rfl := Option.some.inj hfound
      exact ⟨⟨hfile, hnode⟩, other, h, [], id, fun _ => rfl, .refl _ _⟩
    have hchildren := hnode.children
    cases kind with
    | order order children =>
      rw [Write.Pass.last?] at hlast
      rw [Write.Pass.walk, Pass.walk]
      exact Leads.arrange
        (walkAll_ends hpass _ (h.withOrder order) hfile _ 0 record children hchildren hlast)
    | group children =>
      rw [Write.Pass.last?] at hlast
      rw [Write.Pass.walk, Pass.walk]
      exact Leads.arrange (walkAll_ends hpass _ h hfile _ 0 record children hchildren hlast)
    | directory path children =>
      rw [Write.Pass.last?] at hlast
      rw [Write.Pass.walk, Pass.walk]
      exact Leads.arrange
        (walkAll_ends hpass _ (h.enterDir path) hfile _ 0 record children hchildren hlast)
    | _ =>
      rw [Write.Pass.last?] at hlast
      · exact hself _ hlast rfl
      all_goals exact nofun
termination_by structural node => node

theorem walkAll_ends (hpass : wpass.Mirrors False pass) (site : Site) {scope other : Scope}
    (h : scope.Mirrors False other) (hfile : scope.file.isSome = true) (inputs : Nat → Input)
    (index : Nat) (record : Fields Value) : ∀ nodes : List Node,
      (∀ node ∈ nodes, node.Settled site.placement) →
      wpass.lastOf? site scope inputs index record nodes = some visit →
        Leads wpass pass visit (wpass.walkAll site scope inputs index record nodes)
          (pass.walkAll site other none record nodes)
  | [] => by
    intro _ hlast
    rw [Write.Pass.lastOf?] at hlast
    cases hlast
  | node :: rest => by
    intro hnodes hlast
    have hnode := hnodes node List.mem_cons_self
    have hrest : ∀ other ∈ rest, other.Settled site.placement := fun other hother =>
      hnodes other (List.mem_cons_of_mem _ hother)
    rw [Write.Pass.lastOf?] at hlast
    rw [Write.Pass.walkAll, Pass.walkAll]
    by_cases hbare : Node.allBare rest = true
    · -- nothing comes of the nodes behind
      rw [if_pos hbare] at hlast
      obtain ⟨values, hwrite, hread⟩ :=
        walkAll_bare wpass pass site scope other inputs (index + 1) rest hbare
      simp only [hwrite, hread]
      exact Leads.map (walk_ends hpass site h hfile (inputs index) record node hnode hlast)
        fun value => value :: values
    · rw [if_neg hbare] at hlast
      have hfollows := walk_follows hpass site h (inputs index) record node
        (Node.Every.imp (fun _ hkind => hkind.retraceable False) node hnode.fixed)
      have hinside : (wpass.walk site scope (inputs index) record node).Inside :=
        Write.Pass.walk_closed wpass.inside_closed site hfile (inputs index) record node
      cases hout : (wpass.walk site scope (inputs index) record node).outcome with
      | error error =>
        rw [hout] at hlast
        cases hlast
      | ok kept =>
        rw [hout] at hlast
        have hends := walkAll_ends hpass site h hfile inputs (index + 1) kept.2 rest hrest hlast
        exact Leads.after hout hfollows hinside (Leads.map hends fun values => kept.1 :: values)
termination_by structural nodes => nodes

end

end Pass

end Read

open Read Write

/-! ## Layouts with one file -/

/-- The scope in a layout's one file, which has a directory and a name. -/
def Scope.single (target : String × String) : Scope :=
  let path := Path.resolve target.1 target.2
  { Scope.base target.1 with trail := path, file := some path }

/-- The script of the content of a layout's one file. -/
def Schema.contentScript (schema : Schema) (provider : Provider) (user : Value)
    (target : String × String) : Script (List Value × Fields Value) :=
  Write.Pass.walkAll { user, nest := false } schema.rootSite (.single target)
    (fun _ => .within provider) 0 [] [schema.root]

/-- The last field that a write pass of one file comes to. -/
def Schema.lastVisit? (schema : Schema) (provider : Provider) (user : Value)
    (target : String × String) : Option Visit :=
  Write.Pass.lastOf? { user, nest := false } schema.rootSite (.single target)
    (fun _ => .within provider) 0 [] [schema.root]

theorem Schema.contentScript_inside (schema : Schema) (provider : Provider) (user : Value)
    (target : String × String) : (schema.contentScript provider user target).Inside := by
  have hfile : (Scope.single target).file.isSome = true := rfl
  exact Write.Pass.walkAll_closed (Write.Pass.inside_closed _) _ hfile _ 0 [] [schema.root]

/-- What a write pass of one file that ends well leaves behind, whatever its sinks do. -/
theorem Schema.contents_single {schema : Schema} (hfiles : schema.fileCount = 0)
    {provider : Provider} {options : Options} {opener : SinkOpener} {target : String × String}
    (htarget : splitTarget options.path = .ok target) {record : Fields Value}
    (hok : (schema.write provider options opener).result = .ok record) :
    let script := schema.contentScript provider options.user target
    ∃ results, script.outcome = .ok (results, record) ∧
      (schema.write provider options opener).contents =
        [(Path.resolve target.1 target.2, Step.content [] script.steps)] := by
  intro script
  let path := Path.resolve target.1 target.2
  obtain ⟨-, -, -, hcomplete⟩ :=
    schema.write_truncated provider options opener SinkOpener.neverFails_faultless
  obtain ⟨hwhole, hsame, -⟩ := hcomplete record hok
  have houtcome := (Schema.write_result SinkOpener.neverFails_faultless).symm.trans hwhole
  rw [hsame, Schema.contents_write SinkOpener.neverFails_faultless houtcome]
  have hscript : schema.writeScript provider options =
      (Script.event (.trace (.singleFile .write options.path)) >>= fun _ =>
        Script.event (.trace (.opening path)) >>= fun _ =>
          Script.step (.openFile path) >>= fun _ =>
            script >>= fun walked => Script.step (.closeFile path) >>= fun _ => pure walked.2) :=
    Schema.writeScript_single hfiles provider htarget
  rw [hscript] at houtcome ⊢
  change (script >>= _).outcome = _ at houtcome
  obtain ⟨⟨results, after⟩, hresults, hafter⟩ := Script.outcome_bind_eq_ok.mp houtcome
  obtain rfl := Except.ok.inj hafter
  refine ⟨results, hresults, ?_⟩
  show Step.files [] (.openFile path :: (script >>= _).steps) = _
  rw [Script.steps_bind_of_ok hresults]
  exact Write.Pass.files_of_inside path (schema.contentScript_inside provider options.user target)
    (.inr rfl)

/-- **The passes of one file end with those of its last field.** -/
theorem Schema.content_leads {schema : Schema} (hfixed : schema.root.Every Kind.Fixed)
    {provider : Provider} (writing reading : Value) (target other : String × String)
    {visit : Visit} (hlast : schema.lastVisit? provider writing target = some visit) :
    Leads { user := writing, nest := false } { user := reading, nest := false } visit
      (schema.contentScript provider writing target) (schema.contentPlan none reading other) := by
  have hroot : ∀ node ∈ [schema.root], node.Settled schema.rootSite.placement :=
    List.forall_mem_singleton.mpr ⟨hfixed, schema.site, rfl, schema.checked⟩
  have hfile : (Scope.single target).file.isSome = true := rfl
  have hmirrors : (Scope.single target).Mirrors False (.single other) := ⟨rfl, rfl, False.elim⟩
  exact Pass.walkAll_ends ⟨rfl, False.elim⟩ schema.rootSite hmirrors hfile _ 0 [] [schema.root]
    hroot hlast

end ByteLayout
