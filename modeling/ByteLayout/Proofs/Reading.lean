import ByteLayout.Proofs.Agreement

/-!
# What read passes are made of

The plan of a tree asks a few questions, and goes on with the replies. So a property of plans that
holds of these questions, and of one plan followed by another if it holds of both, holds of the
plans of all fields (`Plan.Closed`). No field fetches more than the eight bytes of the widest
number, and the events written down are the pass's own (`Event.Own`). To hold of the plans of whole
trees the property must be known of what decoders and files do, in the scopes in which the walk
meets them (`Pass.Closed`).

**Theorem (`Pass.walk_closed`).** Such a property holds of the plan of every tree.
-/

namespace ByteLayout

namespace Read

/-- A property of plans that holds of the questions of fields, and is kept when one plan follows
another. -/
structure Plan.Closed (P : (α : Type) → Plan α → Prop) : Prop where
  done : ∀ {α : Type} (result : Except Error α), P α (.ofExcept result)
  bind : ∀ {α β : Type} {plan : Plan α} {f : α → Plan β}, P α plan → (∀ a, P β (f a)) →
    P β (plan >>= f)
  event : ∀ {event : Event}, event.Own → P Unit (.event event)
  field : ∀ path kind, P Unit (.field path kind)
  fetch : ∀ {count}, count ≤ 8 → P (List UInt8) (.fetch count)
  read : ∀ count, P (List UInt8) (.read count)

namespace Plan.Closed

variable {P : (α : Type) → Plan α → Prop} {α β : Type}

theorem pure (h : Closed P) (a : α) : P α (Pure.pure a) := h.done (.ok a)

/-- What is done with the result asks nothing. -/
theorem map (h : Closed P) {plan : Plan α} (hplan : P α plan) (f : α → β) :
    P β (plan >>= fun a => Pure.pure (f a)) :=
  h.bind hplan fun a => h.pure (f a)

theorem notes (h : Closed P) : ∀ list : List Note, P Unit (.notes list)
  | [] => h.pure ()
  | note :: rest =>
    have hown : (Event.note note).Own := trivial
    h.bind (h.event hown) fun _ => h.notes rest

theorem called (h : Closed P) (call : Call) (answer : Noted α) : P α (.called call answer) :=
  h.bind (h.event trivial) fun _ => h.map (h.notes answer.notes) fun _ => answer.value

theorem collect (h : Closed P) {item : Nat → Plan α} (hitem : ∀ index, P α (item index)) :
    ∀ remaining index results, P (List α) (Dialogue.collect item remaining index results)
  | 0, _, results => h.done (.ok results.reverse)
  | remaining + 1, index, results =>
    h.bind (hitem index) fun a => h.collect hitem remaining (index + 1) (a :: results)

end Plan.Closed

namespace Pass

variable {P : (α : Type) → Plan α → Prop} (pass : Pass) (name : Option String) (scope : Scope)
  (transform : Option Transform) (record : Fields Value)

/-! ## Fields -/

theorem transformed_closed (h : Plan.Closed P) (value : Value) :
    P Value (pass.transformed transform scope record value) := by
  unfold transformed
  split
  · exact h.pure value
  · exact h.called _ _

theorem settle_closed (h : Plan.Closed P) (value : Value) :
    P Kept (pass.settle name scope transform record value) := by
  cases name with
  | none => exact h.pure _
  | some name => exact h.map (pass.transformed_closed scope _ record h value) _

theorem integer_closed (h : Plan.Closed P) (kind : IntKind) : P Int (integer kind scope) :=
  h.bind (h.done _) fun _ => h.bind (h.field _ _) fun _ => h.map (h.fetch kind.width_le) _

theorem int_closed (h : Plan.Closed P) (kind : IntKind) :
    P Kept (pass.int kind name scope transform record) :=
  h.bind (integer_closed scope h kind) fun _ => pass.settle_closed name scope transform record h _

theorem float_closed (h : Plan.Closed P) (kind : FloatKind) :
    P Kept (pass.float kind name scope transform record) :=
  h.bind (h.done _) fun _ => h.bind (h.field _ _) fun _ => h.bind (h.fetch kind.width_le) fun _ =>
    pass.settle_closed name scope transform record h _

theorem string_closed (h : Plan.Closed P) (kind : IntKind) (text : Node) :
    P Kept (pass.string kind text name scope transform record) := by
  refine h.bind (integer_closed scope h kind) fun n => h.bind (h.done _) fun length => ?_
  split
  · exact h.bind (h.read length) fun _ => pass.settle_closed name scope transform record h _
  · exact h.done _

theorem custom_closed (h : Plan.Closed P) {codec : Codec}
    (hcodec : ∀ path context, P Value (.decode path (codec.decode context))) (kind : String) :
    P Kept (pass.custom codec kind name scope transform record) :=
  h.bind (h.done _) fun _ => h.bind (h.field _ _) fun _ => h.bind (h.event trivial) fun _ =>
    h.bind (hcodec _ _) fun _ => pass.settle_closed name scope transform record h _

theorem sequence_closed (h : Plan.Closed P) (kind : IntKind) (elements : List Node)
    {content : Scope → Option Transform → Plan (List Value × Fields Value)}
    (hcontent : ∀ index transform, P _ (content (scope.item index) transform)) :
    P Kept (pass.sequence kind elements name scope transform record content) := by
  have hown : ∀ index, (Event.itemDone scope.trail index).Own := fun _ => trivial
  refine h.bind (integer_closed scope h kind) fun _ => h.bind (h.done _) fun count =>
    h.map (h.collect (fun index => ?_) count 0 []) _
  exact h.bind (hcontent index _) fun _ => h.bind (pass.transformed_closed _ _ record h _)
    fun _ => h.map (h.event (hown index)) _

theorem arrange_closed (h : Plan.Closed P) {walked : Plan (List Value × Fields Value)}
    (hwalked : P _ walked) : P Kept (arrange walked) :=
  h.map hwalked _

/-! ## Trees -/

/-- A property of plans that is closed for a pass: in the scopes `S`, which the walk does not leave,
it holds of what files do, and of the decoders of the kinds `K`. -/
structure Closed (P : (α : Type) → Plan α → Prop) (S : Scope → Prop) (K : Kind → Prop) : Prop
    extends Plan.Closed P where
  withOrder : ∀ {scope} order, S scope → S (scope.withOrder order)
  inField : ∀ {scope} segment, S scope → S (scope.field segment)
  item : ∀ {scope} index, S scope → S (scope.item index)
  enterDir : ∀ {scope} relative, S scope → S (scope.enterDir relative)
  file : ∀ {scope} relative record content, S scope →
    (∀ inner record, S inner → P (List Value × Fields Value) (content inner record)) →
    P (Fields Value) (pass.inFile relative scope record content)
  decode : ∀ {codec : Codec}, K (.custom codec) →
    ∀ path context, P Value (.decode path (codec.decode context))

variable {pass} {S : Scope → Prop} {K : Kind → Prop}

mutual

/-- **A closed property holds of the plan of every tree.** -/
theorem walk_closed (h : pass.Closed P S K) (site : Site)
    {scope : Scope} (hscope : S scope)
    (transform : Option Transform) (record : Fields Value) : ∀ node : Node, node.Every K →
      P Kept (pass.walk site scope transform record node)
  | .mk kind name default payload => by
    rintro ⟨hkind, hpayload, hbelow⟩
    have hclosed := h.toClosed
    cases kind with
    | order order children =>
      rw [walk]
      exact arrange_closed hclosed
        (walkAll_closed h _ (h.withOrder order hscope) transform record children hbelow)
    | group children =>
      rw [walk]
      exact arrange_closed hclosed (walkAll_closed h _ hscope transform record children hbelow)
    | directory path children =>
      rw [walk]
      exact arrange_closed hclosed
        (walkAll_closed h _ (h.enterDir path hscope) _ record children hbelow)
    | file path children =>
      rw [walk]
      exact hclosed.map (h.file path record _ hscope fun inner record hinner =>
        walkAll_closed h _ hinner _ record children hbelow) _
    | select choose =>
      rw [walk]
      exact hclosed.bind (h.event trivial) fun _ => walkChosen_closed h _ hscope transform record
        (choose (scope.context pass.user record)) (hbelow _)
    | custom codec =>
      rw [walk]
      exact pass.custom_closed name _ transform record hclosed (h.decode hkind) _
    | text encoding =>
      rw [walk]
      exact h.done _
    | float kind =>
      rw [walk]
      exact pass.float_closed name _ transform record hclosed kind
    | int kind =>
      cases payload with
      | none =>
        rw [walk]
        exact pass.int_closed name _ transform record hclosed kind
      | text text =>
        rw [walk]
        exact pass.string_closed name _ transform record hclosed kind text
      | sequence elements =>
        rw [walk]
        exact pass.sequence_closed name _ transform record hclosed kind elements fun index inner =>
          walkAll_closed h _ (h.item index (h.inField _ hscope)) inner [] elements hpayload
termination_by structural node => node

theorem walkChosen_closed (h : pass.Closed P S K) (site : Site)
    {scope : Scope} (hscope : S scope)
    (transform : Option Transform) (record : Fields Value) : ∀ chosen : Noted Node,
      Node.EveryNoted K chosen → P Kept (pass.walkChosen site scope transform record chosen)
  | ⟨node, notes⟩ => by
    intro hnode
    rw [walkChosen]
    exact h.bind (h.notes notes) fun _ => h.bind (h.done _) fun schema =>
      walk_closed h schema.rootSite hscope transform record node hnode
termination_by structural chosen => chosen

theorem walkAll_closed (h : pass.Closed P S K) (site : Site)
    {scope : Scope} (hscope : S scope)
    (transform : Option Transform) (record : Fields Value) : ∀ nodes : List Node,
      Node.EveryAll K nodes →
        P (List Value × Fields Value) (pass.walkAll site scope transform record nodes)
  | [] => by
    intro _
    rw [walkAll]
    exact h.pure _
  | node :: rest => by
    rintro ⟨hnode, hrest⟩
    rw [walkAll]
    exact h.bind (walk_closed h site hscope transform record node hnode) fun _ =>
      h.map (walkAll_closed h site hscope transform _ rest hrest) _
termination_by structural nodes => nodes

end

/-- Files, for a property that holds of the questions that open and close them. -/
theorem inFile_closed (h : Plan.Closed P) (hopen : ∀ path, P Unit (.openFile path))
    (hclose : ∀ path, P Unit (.closeFile path)) (relative : String) (scope : Scope)
    (record : Fields Value) {content : Scope → Fields Value → Plan (List Value × Fields Value)}
    (hcontent : ∀ inner record, P _ (content inner record)) :
    P (Fields Value) (pass.inFile relative scope record content) :=
  h.bind (h.done _) fun _ => h.bind (h.event trivial) fun _ => h.bind (hopen _) fun _ =>
    h.bind (hcontent _ _) fun _ => h.map (hclose _) _

end Pass

end Read

open Read

/-- A closed property of every scope holds of the plan of every schema. -/
theorem Schema.readPlan_closed {P : (α : Type) → Plan α → Prop} {K : Kind → Prop}
    (h : ∀ pass : Pass, pass.Closed P (fun _ => True) K) (schema : Schema)
    (hroot : schema.root.Every K) (transform : Option Transform) (options : Options) :
    P (Fields Value) (schema.readPlan transform options) := by
  have hclosed := (h ⟨options.user, 1 < schema.fileCount⟩).toClosed
  unfold readPlan
  dsimp only
  split
  · exact hclosed.bind (hclosed.done _) fun target => hclosed.bind (hclosed.event trivial) fun _ =>
      (h _).file target.2 [] _ trivial fun inner record _ =>
        Pass.walkAll_closed (h _) _ trivial transform record [schema.root] ⟨hroot, trivial⟩
  · exact hclosed.map (Pass.walk_closed (h _) _ trivial transform [] schema.root hroot) _

end ByteLayout
