import ByteLayout.Proofs.Counts
import ByteLayout.Proofs.ItemCount
import ByteLayout.Proofs.LastVisit
import ByteLayout.Proofs.Putting
import ByteLayout.Proofs.Truncation

/-!
# Counts that are trusted

The count of a lazy sequence is written as it is declared, and so are all items that there are. What
a reader makes of it is seen best where nothing comes behind: if the sequence is the last field of a
file, the reader takes as many items as were declared, leaves the others over, or falls short.

**Step (`collectFrom_written`, `Plan.collectFrom_parse`).** Items are written one behind the other,
and of items one behind the other as many are parsed as are asked for.

**Starving (`walk_nil`).** At the end of the input, no field is parsed.

**Theorem (`Schema.count_trusted`).** A file that ends with a lazy sequence has, at its end, the
declared count and all items; reading it gives the first items, as many as declared, or fails at the
end of the input if there are fewer.
-/

namespace ByteLayout

namespace Write

variable {α : Type}

/-! ## What is written of a lazy sequence -/

/-- Whether a step tells of a lazy sequence. -/
def Step.isGenerated : Step → Bool
  | .record (.generated ..) => true
  | _ => false

/-- Whether a script makes one lazy sequence, and all else that it finds is faithful. -/
structure Script.OneLazy (script : Script α) : Prop where
  once : script.steps.countP Step.isGenerated = 1
  faithful : ∀ step ∈ script.steps, step.isGenerated = false → step.Faithful

/-- Beside the lazy sequence everything is faithful. -/
theorem Script.OneLazy.faithful_of_subset {script : Script α} (h : script.OneLazy)
    {steps : List Step} (hsteps : steps ⊆ script.steps)
    (hnone : steps.countP Step.isGenerated = 0) : ∀ step ∈ steps, step.Faithful :=
  fun step hstep => h.faithful step (hsteps hstep)
    (Bool.eq_false_of_not_eq_true (List.countP_eq_zero.mp hnone step hstep))

/-- The steps of a silent script leave no bytes. -/
theorem Step.content_silent {first : List Step}
    (h : ∀ step ∈ first, ∃ event, step = .record event ∧ event.Unseen) (rest : List Step) :
    content [] (first ++ rest) = content [] rest := by
  induction first with
  | nil => rfl
  | cons step more ih =>
    obtain ⟨event, rfl, -⟩ := h step List.mem_cons_self
    exact ih fun other hother => h other (List.mem_cons_of_mem _ hother)

/-- What is listed was put item by item. -/
theorem Script.collectFrom_written {item : Nat → Script α}
    (hinside : ∀ index, (item index).Inside) : ∀ (count index : Nat) (before results : List α),
      (collectFrom item count index before).outcome = .ok results →
      (collectFrom item count index before).Faithful →
        ∃ values chunks, results = before.reverse ++ values ∧ values.length = count ∧
          chunks.length = count ∧
          Step.content [] (collectFrom item count index before).steps = List.flatten chunks ∧
          ∀ i value bytes, values[i]? = some value → chunks[i]? = some bytes →
            (item (index + i)).Puts value bytes
  | 0, index, before, results => by
    intro hok _
    obtain rfl := Except.ok.inj hok
    exact ⟨[], [], (List.append_nil _).symm, rfl, rfl, rfl, fun _ _ _ hvalue => nomatch hvalue⟩
  | count + 1, index, before, results => by
    rw [collectFrom_succ]
    intro hok hfaithful
    obtain ⟨value, hvalue, hok⟩ := outcome_bind_eq_ok.mp hok
    obtain ⟨hfirst, hfaithful⟩ := (faithful_bind hvalue).mp hfaithful
    obtain ⟨values, chunks, rfl, hlength, hchunks, hcontent, hputs⟩ :=
      collectFrom_written hinside count (index + 1) (value :: before) results hok hfaithful
    refine ⟨value :: values, Step.content [] (item index).steps :: chunks, by simp,
      congrArg (· + 1) hlength, congrArg (· + 1) hchunks, ?_, ?_⟩
    · rw [steps_bind_of_ok hvalue, Step.content_append_of_inside _ (hinside index), hcontent,
        List.flatten_cons]
    · rintro (_ | i) other bytes hother hbytes
      · cases hother
        cases hbytes
        exact ⟨⟨hvalue, hfirst, hinside index⟩, rfl⟩
      · rw [← Nat.add_assoc, Nat.add_right_comm]
        exact hputs i other bytes hother hbytes

namespace Pass

open Script

variable {pass : Pass} {scope : Scope} {input : Input} {record : Fields Value}

/-- Where one field finds its byte order, all fields do. -/
theorem Ready.of_fieldOrder {kind : String} {order : ByteOrder}
    (h : scope.fieldOrder kind = .ok order) : Ready true scope := by
  unfold Scope.fieldOrder Scope.requireOrder at h
  cases hfile : scope.file with
  | none =>
    rw [hfile] at h
    cases h
  | some path =>
    rw [hfile] at h
    cases horder : scope.order with
    | none =>
      rw [horder] at h
      cases h
    | some given => exact ⟨by rw [hfile]; rfl, fun _ => by rw [horder]; rfl⟩

/-- Writes one item of a sequence. -/
def writeItem (pass : Pass) (elements : List Node) (scope : Scope) (supply : Supply)
    (content : Scope → Provider → Script (List Value × Fields Value)) (index : Nat) :
    Script Value := do
  let item ← pass.pull scope supply index
  let (results, itemRecord) ← content (scope.item index) item
  .event (.itemDone scope.trail index)
  return Node.itemValue elements itemRecord results

/-- Within a file an item stays in it. -/
theorem writeItem_inside {elements : List Node} {supply : Supply}
    {content : Scope → Provider → Script (List Value × Fields Value)}
    (hcontent : ∀ inner item, inner.file = scope.file → (content inner item).Inside) (index : Nat) :
    (pass.writeItem elements scope supply content index).Inside := by
  have hclosed := Script.inside_closed
  refine hclosed.bind (pass.pull_closed hclosed scope supply index) fun item => ?_
  refine hclosed.bind (hcontent _ item rfl) fun walked => ?_
  exact hclosed.bind (hclosed.event trivial) fun _ => hclosed.pure _

/-- What is supplied for a lazy sequence that is made. -/
theorem supply_lazy (generate : FieldContext → Noted (LazySequence Provider)) :
    let sequence := (generate (scope.context pass.user record)).value
    (pass.supply scope record (.lazy generate)).outcome = .ok (.ofLazy sequence) ∧
      (pass.supply scope record (.lazy generate)).steps =
        (called (.generate (scope.context pass.user record))
          (generate (scope.context pass.user record))).steps ++
          [.record (.generated scope.trail sequence.count sequence.length)] := by
  intro sequence
  unfold supply
  rw [outcome_bind_of_ok (outcome_called _ _), outcome_bind_of_ok (outcome_event _),
    steps_bind_of_ok (outcome_called _ _), steps_bind_of_ok (outcome_event _)]
  exact ⟨rfl, rfl⟩

/-- A lazy sequence is written as the count that it declares, and then the items that it has. -/
theorem sequence_lazy {kind : IntKind} {elements : List Node} {name : Option String}
    {default : Option Value} {content : Scope → Provider → Script (List Value × Fields Value)}
    {generate : FieldContext → Noted (LazySequence Provider)}
    (hsupplier : (pass.supplier name default scope input record).outcome = .ok (.lazy generate))
    {kept : Kept}
    (hok : (pass.sequence kind elements name default scope input record content).outcome =
      .ok kept) :
    let sequence := (generate (scope.context pass.user record)).value
    let items := collectFrom (pass.writeItem elements scope (.ofLazy sequence) content)
      sequence.length 0 []
    ∃ order n values first, scope.fieldOrder kind.label = .ok order ∧
      countOf kind sequence.count = .ok n ∧ items.outcome = .ok values ∧
      kept = keep name record (.list values) ∧
      (∀ step ∈ first, ∃ event, step = .record event ∧ event.Unseen) ∧
      1 ≤ first.countP Step.isGenerated ∧
      (pass.sequence kind elements name default scope input record content).steps =
        first ++ .field scope.trail kind.label :: .scalar (kind.encode order n) :: items.steps := by
  intro sequence items
  unfold Pass.sequence at hok ⊢
  obtain ⟨order, horder, hok⟩ := outcome_bind_eq_ok.mp hok
  obtain ⟨provider, hprovider, hok⟩ := outcome_bind_eq_ok.mp hok
  obtain rfl := Except.ok.inj (hsupplier.symm.trans hprovider)
  obtain ⟨hsupply, hsteps⟩ : _ = Except.ok (Supply.ofLazy sequence) ∧ _ := pass.supply_lazy generate
  rw [outcome_bind_of_ok hsupply] at hok
  obtain ⟨n, hn, hok⟩ := outcome_bind_eq_ok.mp hok
  rw [outcome_bind_of_ok rfl] at hok
  obtain ⟨values, hvalues, hok⟩ := outcome_bind_eq_ok.mp hok
  have hvalues : items.outcome = .ok values := hvalues
  refine ⟨order, n, values, (pass.supplier name default scope input record).steps ++
    (pass.supply scope record (.lazy generate)).steps, horder, outcome_ofCheck_eq_ok.mp hn,
    hvalues, (Except.ok.inj hok).symm, ?_, ?_, ?_⟩
  · exact List.forall_mem_append.mpr ⟨pass.silent_supplier _ _ _ _ _, pass.silent_supply _ _ _⟩
  · rw [hsteps, List.countP_append, List.countP_append]
    exact Nat.le_add_left_of_le (Nat.le_add_left _ _)
  · rw [steps_bind_of_ok horder, steps_bind_of_ok hprovider, steps_bind_of_ok hsupply,
      steps_bind_of_ok hn, steps_ofExcept, steps_ofCheck, List.nil_append, List.nil_append,
      List.append_assoc]
    refine (List.append_right_inj _).mpr ((List.append_right_inj _).mpr ?_)
    show Step.field _ _ :: Step.scalar _ :: (items >>= _).steps = _
    rw [steps_bind_of_ok hvalues]
    simp

end Pass

end Write

namespace Node

mutual

/-- There is a field in a tree with a number. -/
theorem bare_of_hasNumber : ∀ node : Node, node.hasNumber = true → node.bare = false
  | .mk kind name default payload => by
    intro h
    cases kind with
    | order order children =>
      rw [hasNumber] at h
      rw [bare]
      exact allBare_of_anyNumber children h
    | group children =>
      rw [hasNumber] at h
      rw [bare]
      exact allBare_of_anyNumber children h
    | int kind => rw [bare] <;> exact nofun
    | float kind => rw [bare] <;> exact nofun
    | _ =>
      rw [hasNumber] at h
      · cases h
      all_goals exact nofun
termination_by structural node => node

theorem allBare_of_anyNumber : ∀ nodes : List Node, anyNumber nodes = true → allBare nodes = false
  | [] => by
    intro h
    rw [anyNumber] at h
    cases h
  | node :: rest => by
    intro h
    rw [anyNumber, Bool.or_eq_true] at h
    rw [allBare, Bool.and_eq_false_iff]
    exact h.imp (bare_of_hasNumber node) (allBare_of_anyNumber rest)
termination_by structural nodes => nodes

end

end Node

namespace Read

open Write

namespace Pass

variable {pass : Pass} {scope : Scope} {record : Fields Value}

/-! ## Reading at the end of the input -/

/-- Nothing is behind the end of the input. -/
theorem integer_nil (kind : IntKind) (hready : Write.Pass.Ready true scope) :
    (integer kind scope).parse [] = .error none := by
  obtain ⟨order, horder⟩ := hready.fieldOrder kind.label
  unfold integer
  rw [horder]
  exact if_neg (Nat.not_le.mpr kind.width_pos)

theorem arrange_nil {walked : Plan (List Value × Fields Value)}
    (h : walked.parse [] = .error none) :
    (arrange walked).parse [] = .error none := by
  rw [arrange, Plan.parse_bind, h]
  rfl

mutual

/-- At the end of the input a tree with a field falls short. -/
theorem walk_nil (pass : Pass) (site : Site) {scope : Scope} (hready : Write.Pass.Ready true scope)
    (record : Fields Value) : ∀ {placement : Placement}, placement ≠ .payload → ∀ node : Node,
      node.Settled placement → node.bare = false →
        (pass.walk site scope none record node).parse [] = .error none
  | placement, hplacement, .mk kind name default payload => by
    intro hnode hfield
    have hchildren := hnode.children
    have hkind := (Node.every_iff.mp hnode.fixed).1
    cases kind with
    | order order children =>
      rw [Node.bare] at hfield
      rw [walk]
      exact arrange_nil (walkAll_nil pass _ (hready.withOrder order) record Placement.noConfusion
        children hchildren hfield)
    | group children =>
      rw [Node.bare] at hfield
      rw [walk]
      exact arrange_nil (walkAll_nil pass _ hready record Placement.noConfusion children hchildren
        hfield)
    | directory path children =>
      have hinner : Write.Pass.Ready true (scope.enterDir path) := ⟨hready.file, hready.order⟩
      rw [Node.bare] at hfield
      rw [walk]
      exact arrange_nil (walkAll_nil pass _ hinner record Placement.noConfusion children hchildren
        hfield)
    | file path children => exact absurd hkind id
    | select choose => exact absurd hkind id
    | custom codec => exact absurd hkind id
    | text encoding => exact absurd (hnode.admitted.not_isText hplacement) nofun
    | float kind =>
      obtain ⟨order, horder⟩ := (hready.field _).fieldOrder kind.label
      rw [walk, float, horder]
      exact if_neg (Nat.not_le.mpr kind.width_pos)
    | int kind =>
      have hcount := integer_nil kind (hready.field
        (Node.label (.mk (.int kind) name default payload)))
      cases payload with
      | none =>
        rw [walk, int, Plan.parse_bind, hcount]
        rfl
      | text text =>
        rw [walk, string, Plan.parse_bind, hcount]
        rfl
      | sequence elements =>
        rw [walk, sequence, Plan.parse_bind, hcount]
        rfl
termination_by structural _ _ node => node

theorem walkAll_nil (pass : Pass) (site : Site) {scope : Scope}
    (hready : Write.Pass.Ready true scope) (record : Fields Value) :
    ∀ {placement : Placement}, placement ≠ .payload → ∀ nodes : List Node,
      (∀ node ∈ nodes, node.Settled placement) → Node.allBare nodes = false →
        (pass.walkAll site scope none record nodes).parse [] = .error none
  | placement, hplacement, [] => by
    intro _ h
    rw [Node.allBare] at h
    cases h
  | placement, hplacement, node :: rest => by
    intro hnodes hfield
    rw [Node.allBare] at hfield
    rw [walkAll, Plan.parse_bind]
    cases hbare : node.bare with
    | false =>
      rw [walk_nil pass site hready record hplacement node (hnodes node List.mem_cons_self) hbare]
      rfl
    | true =>
      rw [hbare, Bool.true_and] at hfield
      have hrest := walkAll_nil pass site hready record hplacement rest
        (fun other hother => hnodes other (List.mem_cons_of_mem _ hother)) hfield
      rw [(walk_bare ⟨pass.user, pass.nest⟩ pass site scope scope .absent node hbare record).2]
      show Plan.parse (pass.walkAll site scope none record rest >>= _) [] = _
      rw [Plan.parse_bind, hrest]
      rfl
termination_by structural _ _ nodes => nodes

end

/-! ## Reading items -/

/-- The items of a sequence that no transform changes. -/
theorem items_none (pass : Pass) (elements : List Node) (name : Option String) (scope : Scope)
    (record : Fields Value)
    (content : Scope → Option Transform → Plan (List Value × Fields Value)) (count : Nat) :
    pass.items elements name scope none record content count =
      (Plan.collectFrom (readItem elements scope content) count 0 [] >>= fun items =>
        pure (keep name record (.list items))) := by
  have hname : (name.bind fun name => (none : Option Transform).bind (·.field? name)) = none := by
    cases name <;> rfl
  unfold items
  rw [hname]
  rfl

end Pass

/-- An item is read as it was written. -/
theorem readItem_follows {aligned : Prop} {wpass : Write.Pass} {scope other : Scope}
    (h : scope.Mirrors aligned other)
    (elements : List Node) (supply : Write.Pass.Supply)
    {content : Scope → Option Transform → Plan (List Value × Fields Value)}
    {written : Scope → Provider → Script (List Value × Fields Value)}
    (hcontent : ∀ (inner entered : Scope) (item : Provider), inner.Mirrors aligned entered →
      Follows aligned (content entered none) (written inner item)) (index : Nat) :
    Follows aligned (Pass.readItem elements other content index)
      (wpass.writeItem elements scope supply written index) := by
  refine .after_silent (wpass.silent_pull _ _ _) fun item _ _ => ?_
  refine Follows.bind (hcontent _ _ item (h.item index)) fun walked _ => ?_
  exact Follows.bind (follows_unseen ⟨rfl, rfl⟩ ⟨rfl, rfl⟩) fun _ _ => follows_pure _

/-- Of items one behind the other as many are parsed as are asked for. If more are asked for, and
one behind the last falls short, so do all of them. -/
theorem Plan.collectFrom_parse {α : Type} {item : Nat → Plan α} : ∀ (values : List α)
    (chunks : List (List UInt8)) (count index : Nat) (before : List α),
      values.length = chunks.length →
      (∀ i value bytes, values[i]? = some value → chunks[i]? = some bytes →
        ∀ rest, (item (index + i)).parse (bytes ++ rest) = .ok (value, rest)) →
      (item (index + values.length)).parse [] = .error none →
        (collectFrom item count index before).parse chunks.flatten =
          if count ≤ values.length then
            .ok (before.reverse ++ values.take count, (chunks.drop count).flatten)
          else .error none
  | _, chunks, 0, index, before => by
    intro _ _ _
    rw [if_pos (Nat.zero_le _), List.take_zero, List.append_nil, List.drop_zero]
    rfl
  | [], chunks, count + 1, index, before => by
    intro hlength _ hend
    obtain rfl := List.eq_nil_of_length_eq_zero hlength.symm
    rw [List.length_nil, if_neg (Nat.not_succ_le_zero _)]
    show Plan.parse (item index >>= fun a =>
      collectFrom item count (index + 1) (a :: before)) [] = _
    rw [Plan.parse_bind]
    exact congrArg (Except.bind · _) hend
  | value :: values, [], count + 1, index, before => nofun
  | value :: values, bytes :: chunks, count + 1, index, before => by
    intro hlength hitems hend
    have hfirst := hitems 0 value bytes rfl rfl chunks.flatten
    have hothers := collectFrom_parse values chunks count (index + 1) (value :: before)
      (Nat.succ.inj hlength)
      (fun i other more hother hmore rest => by
        rw [Nat.add_right_comm, Nat.add_assoc]
        exact hitems (i + 1) other more hother hmore rest)
      (by rwa [Nat.add_right_comm, Nat.add_assoc])
    show Plan.parse (item index >>= fun a => collectFrom item count (index + 1) (a :: before)) _ = _
    rw [Plan.parse_bind, List.flatten_cons, show (item index).parse _ = _ from hfirst]
    refine hothers.trans ?_
    simp

end Read

namespace Write

/-- Whether a pass that comes to a node finds that it is a named sequence, and that a lazy one is
given for it. -/
def Visit.IsLazy (pass : Pass) (visit : Visit) (kind : IntKind) (name : String)
    (elements : List Node) (sequence : LazySequence Provider) : Prop :=
  ∃ default generate,
    visit.node = .mk (.int kind) (some name) default (.sequence elements) ∧
    (pass.supplier (some name) default (visit.scope.field name) visit.input visit.record).outcome =
      .ok (.lazy generate) ∧
    (generate ((visit.scope.field name).context pass.user visit.record)).value = sequence

/-- The script of an item of a lazy sequence that is given for a node. -/
def Pass.item (pass : Pass) (visit : Visit) (elements : List Node)
    (sequence : LazySequence Provider) (index : Nat) : Script Value :=
  pass.writeItem elements (visit.scope.field visit.node.label) (.ofLazy sequence)
    (fun scope item => pass.walkAll (visit.site.below .element visit.node) scope
      (Pass.itemInput elements.length item) 0 [] elements) index

/-- The values and the bytes of the items of a lazy sequence, as their scripts have them. -/
structure Pass.Items (pass : Pass) (visit : Visit) (elements : List Node)
    (sequence : LazySequence Provider) (values : List Value) (chunks : List (List UInt8)) :
    Prop where
  values_length : values.length = sequence.length
  chunks_length : chunks.length = sequence.length
  puts : ∀ index value bytes, values[index]? = some value → chunks[index]? = some bytes →
    (pass.item visit elements sequence index).Puts value bytes

/-- **A lazy sequence is written as the count that it declares, and then all its items.** -/
theorem Visit.IsLazy.written {pass : Pass} {visit : Visit} {kind : IntKind} {name : String}
    {elements : List Node} {sequence : LazySequence Provider}
    (h : visit.IsLazy pass kind name elements sequence) (hproper : visit.Proper) {count : Int}
    (hcount : sequence.count.toInteger = .ok count) {script : Script α} (hone : script.OneLazy)
    {before : List Step} (hsteps : script.steps = before ++ (pass.scriptAt visit).steps)
    {kept : Kept} (hok : (pass.scriptAt visit).outcome = .ok kept) :
    (∀ step ∈ before, step.Faithful) ∧ ∃ order values chunks,
      (visit.scope.field name).fieldOrder kind.label = .ok order ∧ kind.Holds count ∧
      pass.Items visit elements sequence values chunks ∧
      kept = keep (some name) visit.record (.list values) ∧
      Step.content [] (pass.scriptAt visit).steps =
        kind.encode order count ++ List.flatten chunks := by
  obtain ⟨site, scope, input, record, node⟩ := visit
  obtain ⟨default, generate, hnode, hsupplier, rfl⟩ := h
  obtain rfl : node = .mk (.int kind) (some name) default (.sequence elements) := hnode
  obtain ⟨order, n, values, first, horder, hn, hvalues, rfl, hsilent, hmade, hfirst⟩ :=
    Pass.sequence_lazy hsupplier (by rwa [Pass.scriptAt, Pass.walk] at hok)
  obtain ⟨hinteger, hholds⟩ := Pass.countOf_eq_ok hn
  obtain rfl := Except.ok.inj (hinteger.symm.trans hcount)
  let node : Node := .mk (.int kind) (some name) default (.sequence elements)
  let visit : Visit := ⟨site, scope, input, record, node⟩
  let sequence := (generate ((scope.field name).context pass.user record)).value
  let items := Script.collectFrom (pass.item visit elements sequence) sequence.length 0 []
  have hvisit : (pass.scriptAt visit).steps =
      first ++ .field (scope.field name).trail kind.label :: .scalar (kind.encode order n) ::
        items.steps := by
    rw [Pass.scriptAt, Pass.walk]
    exact hfirst
  have hvisit' : script.steps = before ++ _ := hvisit ▸ hsteps
  have honce := hone.once
  rw [hvisit', List.countP_append, List.countP_append, List.countP_cons, List.countP_cons] at honce
  have hbefore : before.countP Step.isGenerated = 0 := by omega
  have hrest : items.steps.countP Step.isGenerated = 0 := by omega
  have hinside : ∀ index, (pass.item visit elements sequence index).Inside :=
    Pass.writeItem_inside fun inner item hfile => Pass.walkAll_closed pass.inside_closed _
      (hfile ▸ hproper.inFile) _ 0 [] elements
  have hitems : items.steps ⊆ script.steps := by
    rw [hvisit']
    exact fun step hstep => List.mem_append_right _ (List.mem_append_right _
      (List.mem_cons_of_mem _ (List.mem_cons_of_mem _ hstep)))
  obtain ⟨_, chunks, rfl, hlength, hchunks, hcontent, hputs⟩ := Script.collectFrom_written hinside
    sequence.length 0 [] values hvalues (hone.faithful_of_subset hitems hrest)
  have hsubset : before ⊆ script.steps := hsteps ▸ List.subset_append_left _ _
  refine ⟨hone.faithful_of_subset hsubset hbefore, order, values, chunks, horder, hholds,
    ⟨hlength, hchunks, fun index value bytes hvalue hbytes => ?_⟩, rfl, ?_⟩
  · have hitem := hputs index value bytes hvalue hbytes
    rwa [Nat.zero_add] at hitem
  · rw [hvisit, Step.content_silent hsilent]
    exact congrArg (_ ++ ·) hcontent

end Write

namespace Read

open Write

/-- **Of the items as many are read as the count declares.** If there are fewer, the input ends too
early. -/
theorem parse_items {wpass : Write.Pass} {pass : Pass} (hpass : wpass.Mirrors False pass)
    {visit : Visit} (hproper : visit.Proper) {kind : IntKind} {name : String}
    {default : Option Value} {elements : List Node}
    (hnode : visit.node = .mk (.int kind) (some name) default (.sequence elements))
    (hnumber : Node.anyNumber elements = true) {order : ByteOrder}
    (horder : (visit.scope.field name).fieldOrder kind.label = .ok order) {count : Nat}
    (hcount : kind.Holds count) {sequence : LazySequence Provider} {values : List Value}
    {chunks : List (List UInt8)} (hitems : wpass.Items visit elements sequence values chunks)
    {entered : Scope} (hmirrors : visit.scope.Mirrors False entered) :
    (pass.walk visit.site entered none visit.record visit.node).parse
        (kind.encode order count ++ chunks.flatten) =
      if count ≤ sequence.length then
        .ok (keep (some name) visit.record (.list (values.take count)), (chunks.drop count).flatten)
      else .error none := by
  obtain ⟨site, scope, input, record, node⟩ := visit
  obtain rfl : node = .mk (.int kind) (some name) default (.sequence elements) := hnode
  have hplace := hmirrors.field name
  have hparts : ∀ element ∈ elements, element.Settled .element := hproper.settled.parts
  have hevery : Node.EveryAll (Kind.Retraceable False) elements :=
    Node.everyAll_iff.mpr fun element helement => Node.Every.imp
      (fun _ hkind => hkind.retraceable False) element (hparts element helement).fixed
  let node : Node := .mk (.int kind) (some name) default (.sequence elements)
  let content : Scope → Option Transform → Plan (List Value × Fields Value) :=
    fun scope transform => pass.walkAll (site.below .element node) scope transform [] elements
  have hfollows : ∀ index, Follows False
      (Pass.readItem elements (entered.field name) content index)
      (wpass.item ⟨site, scope, input, record, node⟩ elements sequence index) :=
    readItem_follows hplace elements _ fun inner reached item h =>
      walkAll_follows hpass _ h _ 0 [] elements hevery
  have hready : Write.Pass.Ready true (entered.field name) :=
    .of_fieldOrder (hplace.fieldOrder horder)
  have hend : ∀ index,
      (Pass.readItem elements (entered.field name) content index).parse [] = .error none := by
    intro index
    have hnil : (content ((entered.field name).item index) none).parse [] = .error none :=
      Pass.walkAll_nil pass _ (hready.item index) [] Placement.noConfusion elements hparts
        (Node.allBare_of_anyNumber elements hnumber)
    unfold Pass.readItem
    rw [Plan.parse_bind, hnil]
    rfl
  have hwalk : pass.walk site entered none record node =
      pass.sequence kind elements (some name) (entered.field name) none record content := by
    rw [Pass.walk]
    rfl
  have hfirst : (Pass.count kind (entered.field name)).parse
      (kind.encode order count ++ chunks.flatten) = .ok (count, chunks.flatten) := by
    rw [Pass.parse_count (hplace.fieldOrder horder) hcount, if_neg (by omega), Int.toNat_natCast]
  show (pass.walk site entered none record node).parse _ = _
  rw [hwalk, Pass.parse_sequence, hfirst]
  show (Pass.items _ _ _ _ _ _ _ _).parse _ = _
  rw [Pass.items_none, Plan.parse_bind, Plan.collectFrom_parse values chunks count 0 []
    (hitems.values_length.trans hitems.chunks_length.symm) ?_ (hend _), hitems.values_length]
  · split <;> rfl
  · intro index value bytes hvalue hbytes rest
    have hputs := hitems.puts index value bytes hvalue hbytes
    rw [Nat.zero_add, ← hputs.content]
    exact (hfollows index value hputs.yields.outcome hputs.yields.faithful).parse
      hputs.yields.inside rest

end Read

open Read Write

/-- **A declared count is trusted.** Let the last field of a file be a named sequence with a number
in each item, for which a lazy sequence is given; let it be the only one in the pass, and all floats
be represented. If the pass ends well, whatever its sinks do, the file ends with the declared count
and the bytes of all items. From these bytes, however they come in, a read pass gives the record
that was kept, with the values of the first items, as many as were declared; if there are fewer, it
fails at the end of the input. -/
theorem Schema.count_trusted (schema : Schema) (hfixed : schema.root.Every Kind.Fixed)
    (provider : Provider) (writing : Options) {target : String × String}
    (htarget : splitTarget writing.path = .ok target) {visit : Visit}
    (hlast : schema.lastVisit? provider writing.user target = some visit) {kind : IntKind}
    {name : String} {elements : List Node} {sequence : LazySequence Provider}
    (hlazy : visit.IsLazy ⟨writing.user, false⟩ kind name elements sequence)
    (hnumber : Node.anyNumber elements = true) {count : Nat}
    (hcount : sequence.count.toInteger = .ok (count : Int))
    (hone : (schema.contentScript provider writing.user target).OneLazy) {opener : SinkOpener}
    {record : Fields Value} (hok : (schema.write provider writing opener).result = .ok record) :
    ∃ order before values chunks,
      (visit.scope.field name).fieldOrder kind.label = .ok order ∧
      (schema.contentScript provider writing.user target).steps =
        before ++ (Write.Pass.scriptAt ⟨writing.user, false⟩ visit).steps ∧
      Write.Pass.Items ⟨writing.user, false⟩ visit elements sequence values chunks ∧
      record = Fields.insert visit.record name (.list values) ∧
      let bytes := Step.content [] before ++ (kind.encode order count ++ List.flatten chunks)
      (schema.write provider writing opener).contents =
          [(Path.resolve target.1 target.2, bytes)] ∧
        ∀ (reading : Options) (source : SourceOpener),
          (∃ target, splitTarget reading.path = .ok target) → source.Gives bytes →
            let read := schema.read none reading source
            (count ≤ sequence.length →
              read.result = .ok (Fields.insert visit.record name (.list (values.take count)))) ∧
            (sequence.length < count →
              ∃ path needed, read.result = .error (.unexpectedEnd path needed)) := by
  have hfiles := Node.fileCount_of_fixed hfixed
  obtain ⟨results, houtcome, hcontents⟩ := Schema.contents_single hfiles htarget hok
  obtain ⟨hproper, entered, -, first, finish, hrecord, hends⟩ :=
    Schema.content_leads hfixed writing.user writing.user target target hlast
  obtain ⟨kept, hkept, hresults⟩ : ∃ kept,
      (Write.Pass.scriptAt ⟨writing.user, false⟩ visit).outcome = .ok kept ∧
        finish kept = (results, record) := by
    have hmap := hends.outcome.symm.trans houtcome
    cases hvisit : (Write.Pass.scriptAt ⟨writing.user, false⟩ visit).outcome with
    | error error =>
      rw [hvisit] at hmap
      cases hmap
    | ok kept =>
      rw [hvisit] at hmap
      exact ⟨kept, rfl, Except.ok.inj hmap⟩
  obtain ⟨hbefore, order, values, chunks, horder, hholds, hitems, rfl, hbytes⟩ :=
    hlazy.written hproper hcount hone hends.steps hkept
  obtain ⟨default, generate, hnode, -⟩ := hlazy
  have hinside : ∀ step ∈ first, step.Inside := fun step hstep =>
    schema.contentScript_inside provider writing.user target step
      (hends.steps ▸ List.mem_append_left _ hstep)
  refine ⟨order, first, values, chunks, horder, hends.steps, hitems, ?_, ?_, ?_⟩
  · have hlast := hrecord (keep (some name) visit.record (.list values))
    rw [hresults] at hlast
    exact hlast
  · rw [hcontents, hends.steps, Step.content_append_of_inside _ hinside, hbytes]
  · rintro reading source ⟨other, hother⟩ hsource
    obtain ⟨-, entered, hmirrors, again, finish, hrecord, hagain⟩ :=
      Schema.content_leads hfixed writing.user reading.user target other hlast
    obtain rfl : first = again :=
      List.append_cancel_right (hends.steps.symm.trans hagain.steps)
    have hread := Schema.read_parse hfiles
      (Node.Every.imp (fun _ => Kind.Fixed.builtIn) schema.root hfixed) none reading hother
      hsource.brings
    rw [hagain.parse hbefore, parse_items ⟨rfl, False.elim⟩ hproper hnode hnumber horder hholds
      hitems hmirrors] at hread
    refine ⟨fun hle => ?_, fun hlt => ?_⟩
    · rw [if_pos hle] at hread
      exact hread.1.trans (congrArg Except.ok (hrecord (keep (some name) visit.record _)))
    · rw [if_neg (Nat.not_le.mpr hlt)] at hread
      obtain ⟨error, herror, hend⟩ := hread
      obtain ⟨path, needed, rfl⟩ := hend rfl
      exact ⟨path, needed, herror⟩

/-! ## A row with a cell too many -/

/-- Bytes behind their number. -/
def cells : Node := (byteField "cells").withSequence [.ofKind (.int .u8)]

/-- A tag, and a sequence in a group behind it. -/
def row : Schema :=
  ⟨.ofKind (.order .big [byteField "tag", .ofKind (.group [cells])]), .root, rfl⟩

/-- Three bytes, of which two are declared. -/
def surplus : LazySequence Provider :=
  { count := .int 2, length := 3, item := fun index => ⟨.value (.int (7 + index)), []⟩ }

def rowData : Provider :=
  .record [("tag", .value (.int 1)), ("cells", .lazy fun _ => ⟨surplus, []⟩)]

theorem row_fixed : row.root.Every Kind.Fixed := by
  have hbyte : ∀ name, (byteField name).Every Kind.Fixed := fun _ => ⟨trivial, trivial, trivial⟩
  have hcell : (Node.ofKind (.int .u8)).Every Kind.Fixed := ⟨trivial, trivial, trivial⟩
  exact ⟨trivial, trivial, hbyte "tag", ⟨trivial, trivial, ⟨trivial, ⟨hcell, trivial⟩, trivial⟩,
    trivial⟩, trivial⟩

theorem row_oneLazy : (row.contentScript rowData taggedOptions.user ("", "out")).OneLazy := by
  refine ⟨rfl, fun step hstep hlazy => ?_⟩
  obtain ⟨tag, context, place, path, path', path'', hsteps⟩ : ∃ tag context place path path' path'',
      (row.contentScript rowData taggedOptions.user ("", "out")).steps =
        [.record (.resolved tag IntKind.u8.label (.int 1)), .field tag "U8", .scalar [1],
          .record (.call (.generate context)), .record (.generated place (.int 2) 3),
          .field place "U8", .scalar [2],
          .record (.pulled place 0), .record (.resolved path IntKind.u8.label (.int 7)),
          .field path "U8", .scalar [7], .record (.itemDone place 0),
          .record (.pulled place 1), .record (.resolved path' IntKind.u8.label (.int 8)),
          .field path' "U8", .scalar [8], .record (.itemDone place 1),
          .record (.pulled place 2), .record (.resolved path'' IntKind.u8.label (.int 9)),
          .field path'' "U8", .scalar [9], .record (.itemDone place 2)] :=
    ⟨_, _, _, _, _, _, rfl⟩
  rw [hsteps] at hstep
  cases step with
  | record event =>
    cases event with
    | resolved found kind value =>
      have hkind : kind = IntKind.u8.label := by
        simp only [List.mem_cons, Step.record.injEq, Event.resolved.injEq, reduceCtorEq,
          List.not_mem_nil, or_false, false_or] at hstep
        grind
      rw [hkind]
      exact faithful_resolved_int found .u8 value
    | generated found count length => cases hlazy
    | _ => trivial
  | _ => trivial

theorem row_written : (row.write rowData taggedOptions fun _ _ => .ok .faultless).result =
    .ok [("cells", .list [.int 7, .int 8, .int 9]), ("tag", .int 1)] := by
  rw [Schema.write_result SinkOpener.neverFails_faultless,
    Schema.writeScript_single rfl rowData splitTarget_out]
  rfl

/-- The sequence is written behind the tag. -/
def rowVisit : Visit :=
  { site := (row.rootSite.below .child row.root).below .child (.ofKind (.group [cells]))
    scope := (Scope.single ("", "out")).withOrder .big
    input := .within rowData
    record := [("tag", .int 1)]
    node := cells }

theorem Schema.count_trusted_surplus :
    ∃ order before values chunks,
      (rowVisit.scope.field "cells").fieldOrder IntKind.u8.label = .ok order ∧
      (row.contentScript rowData taggedOptions.user ("", "out")).steps =
        before ++ (Write.Pass.scriptAt ⟨taggedOptions.user, false⟩ rowVisit).steps ∧
      Write.Pass.Items ⟨taggedOptions.user, false⟩ rowVisit [.ofKind (.int .u8)] surplus values
        chunks ∧
      [("cells", .list [.int 7, .int 8, .int 9]), ("tag", .int 1)] =
        Fields.insert rowVisit.record "cells" (.list values) ∧
      let bytes := Step.content [] before ++ (IntKind.u8.encode order 2 ++ List.flatten chunks)
      (row.write rowData taggedOptions fun _ _ => .ok .faultless).contents =
          [(Path.resolve "" "out", bytes)] ∧
        ∀ (reading : Options) (source : SourceOpener),
          (∃ target, splitTarget reading.path = .ok target) → source.Gives bytes →
            let read := row.read none reading source
            (2 ≤ surplus.length →
              read.result = .ok (Fields.insert rowVisit.record "cells" (.list (values.take 2)))) ∧
            (surplus.length < 2 →
              ∃ path needed, read.result = .error (.unexpectedEnd path needed)) := by
  have hlazy : rowVisit.IsLazy ⟨taggedOptions.user, false⟩ .u8 "cells" [.ofKind (.int .u8)]
      surplus := ⟨none, fun _ => ⟨surplus, []⟩, rfl, rfl, rfl⟩
  exact Schema.count_trusted row row_fixed rowData taggedOptions splitTarget_out rfl hlazy rfl rfl
    row_oneLazy row_written

/-- The tag, the count and all three bytes. -/
example : Step.content [] (row.contentScript rowData taggedOptions.user ("", "out")).steps =
    [1, 2, 7, 8, 9] := rfl

end ByteLayout
