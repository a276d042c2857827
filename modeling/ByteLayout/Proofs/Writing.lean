import ByteLayout.Proofs.Journal
import ByteLayout.Proofs.Script
import ByteLayout.Write.Pass

/-!
# What write passes are made of

The script of a field takes a few kinds of steps, so a property of scripts that holds of each of
these steps, and of one script followed by another if it holds of both, holds of the scripts of all
fields (`Script.Closed`). To hold of the scripts of whole trees it must be known of files, in the
scopes in which the walk meets them (`Pass.Closed`). Of the events only some are a pass's own to
write down (`Event.Own`); what is done to a sink is told by the stage that the script is played on.

**Theorem (`Pass.walk_closed`).** A closed property holds of the script of every tree.
-/

namespace ByteLayout

namespace Write

/-- A property of scripts that holds of the steps of fields, and is kept when one script follows
another. -/
structure Script.Closed (P : (α : Type) → Script α → Prop) : Prop where
  done : ∀ {α : Type} (result : Except Error α), P α (.ofExcept result)
  bind : ∀ {α β : Type} {script : Script α} {f : α → Script β}, P α script → (∀ a, P β (f a)) →
    P β (script >>= f)
  event : ∀ {event : Event}, event.Own → P Unit (.event event)
  field : ∀ path kind, P Unit (.step (.field path kind))
  scalar : ∀ bytes, P Unit (.step (.scalar bytes))
  payload : ∀ bytes, P Unit (.step (.payload bytes))

namespace Script.Closed

variable {P : (α : Type) → Script α → Prop} {α β : Type}

theorem pure (h : Closed P) (a : α) : P α (Pure.pure a) := h.done (.ok a)

/-- What is done with the result takes no step. -/
theorem map (h : Closed P) {script : Script α} (hscript : P α script) (f : α → β) :
    P β (script >>= fun a => Pure.pure (f a)) :=
  h.bind hscript fun a => h.pure (f a)

theorem ofCheck (h : Closed P) (path : String) (result : Except Reason α) :
    P α (.ofCheck path result) := by
  cases result with
  | ok a => exact h.pure a
  | error reason => exact h.done (.error (.invalidValue path reason))

theorem notes (h : Closed P) : ∀ list : List Note, P Unit (.notes list)
  | [] => h.pure ()
  | note :: rest =>
    have hown : (Event.note note).Own := trivial
    h.bind (h.event hown) fun _ => h.notes rest

theorem called (h : Closed P) (call : Call) (answer : Noted α) : P α (.called call answer) :=
  h.bind (h.event trivial) fun _ =>
    h.map (h.notes answer.notes) fun _ => answer.value

theorem collectFrom (h : Closed P) {item : Nat → Script α} (hitem : ∀ index, P α (item index)) :
    ∀ count index results, P (List α) (collectFrom item count index results)
  | 0, _, results => h.pure results.reverse
  | count + 1, index, results =>
    h.bind (hitem index) fun a => h.collectFrom hitem count (index + 1) (a :: results)

end Script.Closed

namespace Pass

open Script

variable {P : (α : Type) → Script α → Prop} (h : Script.Closed P) (pass : Pass)
  (name : Option String) (default : Option Value) (scope : Scope) (input : Input)
  (record : Fields Value)

include h

/-! ## Values -/

theorem compute_closed (provider : Provider) : P Provider (pass.compute scope record provider) := by
  cases provider with
  | computed f => exact h.called _ _
  | _ => exact h.pure _

theorem provided_closed : P (Option Provider) (pass.provided name scope input record) := by
  unfold provided
  split
  · exact h.pure none
  · exact h.map (pass.compute_closed h scope record _) some

theorem literal_closed : P (Option Value) (pass.literal name scope input record) :=
  h.map (pass.provided_closed h name scope input record) _

theorem resolve_closed (kind : String) :
    P Value (pass.resolve kind name default scope input record) := by
  refine h.bind (pass.literal_closed h name scope input record) fun given => ?_
  split
  · exact h.done _
  · exact h.bind (h.event trivial) fun _ => h.pure _

theorem supplier_closed : P Provider (pass.supplier name default scope input record) := by
  refine h.bind (pass.provided_closed h name scope input record) fun provider => ?_
  split <;> exact h.done _

theorem supply_closed (provider : Provider) : P Supply (pass.supply scope record provider) := by
  cases provider with
  | lazy generate =>
    exact h.bind (h.called _ _) fun _ => h.bind (h.event trivial) fun _ => h.pure _
  | _ => exact h.done _

theorem pull_closed (supply : Supply) (index : Nat) :
    P Provider (pass.pull scope supply index) := by
  unfold pull
  split
  · exact h.bind (h.event trivial) fun _ => h.bind (h.notes _) fun _ =>
      pass.compute_closed h _ _ _
  · exact pass.compute_closed h _ _ _

/-! ## Fields -/

theorem scalar_closed (kind : String) (bytes : List UInt8) : P Unit (scalar scope kind bytes) :=
  h.bind (h.field _ _) fun _ => h.scalar bytes

theorem int_closed (kind : IntKind) : P Kept (pass.int kind name default scope input record) := by
  refine h.bind (h.done _) fun order => ?_
  refine h.bind (pass.resolve_closed h name default scope input record _) fun value => ?_
  refine h.bind (h.ofCheck _ _) fun n => ?_
  exact h.map (scalar_closed h scope _ _) _

theorem float_closed (kind : FloatKind) :
    P Kept (pass.float kind name default scope input record) := by
  refine h.bind (h.done _) fun order => ?_
  refine h.bind (pass.resolve_closed h name default scope input record _) fun value => ?_
  refine h.bind (h.ofCheck _ _) fun x => ?_
  exact h.map (scalar_closed h scope _ _) _

theorem string_closed (kind : IntKind) (text : Node) :
    P Kept (pass.string kind text name default scope input record) := by
  refine h.bind (h.done _) fun order => ?_
  split
  · refine h.bind (pass.resolve_closed h name _ scope input record _) fun value => ?_
    refine h.bind (h.ofCheck _ _) fun content => ?_
    refine h.bind (h.ofCheck _ _) fun bytes => ?_
    refine h.bind (h.ofCheck _ _) fun length => ?_
    refine h.bind (scalar_closed h scope _ _) fun _ => ?_
    exact h.map (h.payload bytes) _
  · exact h.done _

theorem custom_closed (codec : Codec) (kind : String) :
    P Kept (pass.custom codec kind name default scope input record) := by
  refine h.bind (h.done _) fun order => ?_
  refine h.bind (pass.literal_closed h name scope input record) fun given => ?_
  refine h.bind (h.called _ _) fun encoded => ?_
  split
  · exact h.done _
  · exact h.bind (h.field _ _) fun _ => h.map (h.payload _) _

/-! ## Sequences and files -/

theorem sequence_closed (kind : IntKind) (elements : List Node)
    {content : Scope → Provider → Script (List Value × Fields Value)}
    (hcontent : ∀ index item, P _ (content (scope.item index) item)) :
    P Kept (pass.sequence kind elements name default scope input record content) := by
  refine h.bind (h.done _) fun order => ?_
  refine h.bind (pass.supplier_closed h name default scope input record) fun provider => ?_
  refine h.bind (pass.supply_closed h scope record provider) fun supply => ?_
  refine h.bind (h.ofCheck _ _) fun count => ?_
  refine h.bind (scalar_closed h scope _ _) fun _ => ?_
  refine h.map (h.collectFrom (fun index => ?_) supply.length 0 []) _
  refine h.bind (pass.pull_closed h scope supply index) fun item => ?_
  exact h.bind (hcontent index item) fun _ => h.bind (h.event trivial) fun _ => h.pure _

/-- Files, for a property that holds of the steps that open and close them. -/
theorem inFile_closed (hopen : ∀ path, P Unit (.step (.openFile path)))
    (hclose : ∀ path, P Unit (.step (.closeFile path))) (relative : String)
    {content : Scope → Fields Value → Script (List Value × Fields Value)}
    (hcontent : ∀ inner record, P _ (content inner record)) :
    P (Fields Value) (pass.inFile relative scope record content) := by
  refine h.bind (h.done _) fun inner => ?_
  refine h.bind (h.event trivial) fun _ => h.bind (hopen _) fun _ => ?_
  exact h.bind (hcontent _ _) fun _ => h.map (hclose _) _

theorem arrange_closed {walked : Script (List Value × Fields Value)} (hwalked : P _ walked) :
    P Kept (arrange walked) :=
  h.map hwalked _

end Pass

/-! ## Trees -/

namespace Pass

/-- A property of scripts that is closed for a pass: in the scopes `S`, which the walk does not
leave, it holds of what files do. -/
structure Closed (pass : Pass) (P : (α : Type) → Script α → Prop) (S : Scope → Prop) : Prop
    extends Script.Closed P where
  withOrder : ∀ {scope} order, S scope → S (scope.withOrder order)
  inField : ∀ {scope} segment, S scope → S (scope.field segment)
  item : ∀ {scope} index, S scope → S (scope.item index)
  enterDir : ∀ {scope} relative, S scope → S (scope.enterDir relative)
  file : ∀ {scope} relative record content, S scope →
    (∀ inner record, S inner → P (List Value × Fields Value) (content inner record)) →
    P (Fields Value) (pass.inFile relative scope record content)

variable {pass : Pass} {P : (α : Type) → Script α → Prop} {S : Scope → Prop}

mutual

/-- **A closed property holds of the script of every tree.** -/
theorem walk_closed (h : pass.Closed P S) (site : Site) {scope : Scope} (hscope : S scope)
    (input : Input) (record : Fields Value) :
    ∀ node : Node, P Kept (pass.walk site scope input record node)
  | .mk kind name default payload => by
    have hclosed := h.toClosed
    cases kind with
    | order order children =>
      rw [walk]
      exact arrange_closed hclosed
        (walkAll_closed h _ (h.withOrder order hscope) _ 0 record children)
    | group children =>
      rw [walk]
      exact arrange_closed hclosed (walkAll_closed h _ hscope _ 0 record children)
    | directory path children =>
      rw [walk]
      exact arrange_closed hclosed (walkAll_closed h _ (h.enterDir path hscope) _ 0 record children)
    | file path children =>
      rw [walk]
      exact hclosed.map (h.file path record _ hscope fun inner record hinner =>
        walkAll_closed h _ hinner _ 0 record children) _
    | select choose =>
      rw [walk]
      exact hclosed.bind (h.event trivial) fun _ => walkChosen_closed h _ hscope input record
        (choose (scope.context pass.user record))
    | custom codec =>
      rw [walk]
      exact pass.custom_closed hclosed name default _ input record codec _
    | text encoding =>
      rw [walk]
      exact h.done _
    | float kind =>
      rw [walk]
      exact pass.float_closed hclosed name default _ input record kind
    | int kind =>
      cases payload with
      | none =>
        rw [walk]
        exact pass.int_closed hclosed name default _ input record kind
      | text text =>
        rw [walk]
        exact pass.string_closed hclosed name default _ input record kind text
      | sequence elements =>
        rw [walk]
        exact pass.sequence_closed hclosed name default _ input record kind elements
          fun index item => walkAll_closed h _ (h.item index (h.inField _ hscope)) _ 0 [] elements
termination_by structural node => node

theorem walkChosen_closed (h : pass.Closed P S) (site : Site) {scope : Scope} (hscope : S scope)
    (input : Input) (record : Fields Value) :
    ∀ chosen : Noted Node, P Kept (pass.walkChosen site scope input record chosen)
  | ⟨node, notes⟩ => by
    rw [walkChosen]
    exact h.bind (h.notes notes) fun _ => h.bind (h.done _) fun schema =>
      walk_closed h schema.rootSite hscope input record node
termination_by structural chosen => chosen

theorem walkAll_closed (h : pass.Closed P S) (site : Site) {scope : Scope} (hscope : S scope)
    (inputs : Nat → Input) (index : Nat) (record : Fields Value) : ∀ nodes : List Node,
      P (List Value × Fields Value) (pass.walkAll site scope inputs index record nodes)
  | [] => by
    rw [walkAll]
    exact h.pure _
  | node :: rest => by
    rw [walkAll]
    exact h.bind (walk_closed h site hscope (inputs index) record node) fun kept =>
      h.map (walkAll_closed h site hscope inputs (index + 1) kept.2 rest) _
termination_by structural nodes => nodes

end

end Pass

end Write

open Write

/-- A closed property of every scope holds of the script of every layout. -/
theorem Schema.writeScript_closed {P : (α : Type) → Script α → Prop}
    (h : ∀ pass : Pass, pass.Closed P fun _ => True) (schema : Schema) (provider : Provider)
    (options : Options) : P (Fields Value) (schema.writeScript provider options) := by
  have hclosed := (h ⟨options.user, 1 < schema.fileCount⟩).toClosed
  unfold writeScript
  dsimp only
  split
  · exact hclosed.bind (hclosed.done _) fun target => hclosed.bind (hclosed.event trivial) fun _ =>
      (h _).file target.2 [] _ trivial fun inner record _ =>
        Pass.walkAll_closed (h _) _ trivial _ _ record [schema.root]
  · exact hclosed.map (Pass.walk_closed (h _) _ trivial _ _ schema.root) _

end ByteLayout
