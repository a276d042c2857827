import ByteLayout.Proofs.Alike
import ByteLayout.Proofs.Gapped
import ByteLayout.Proofs.Numbers
import ByteLayout.Proofs.Yielding

/-!
# Fields that are missing, null or given their default

Where a provider has nothing for a field, or has `null`, the default stands in; so it should not
matter which of the three is given. Values are looked up by integers, floats, texts, sequences and
custom nodes, each in its own way, and by directories and files on the way to their children.

What nodes have to do with a field that is left open is listed by the **sights** of a pass
(`Schema.sights`): a node looks the field up, or it takes as its value the record or something that
the record is part of. For an integer, a float or a text such a value is refused for its shape, and
a list goes on item by item. But a custom node may look into it, and tell `null` from nothing
(`Schema.gap_measured`).

**Step (`walk_alike`).** If every node that looks the field up has the content as a substitute for
nothing, and no custom node takes a value that the gap is in, then the script of a tree is the same
with the content as with nothing, apart from values that are refused.

**Theorem (`Schema.gap_filled`).** For a field that one node looks up, missing, null and the default
are interchangeable.
-/

namespace ByteLayout

/-! ## Values -/

namespace Provider

mutual

/-- A literal has the value that it is the literal of. -/
theorem toValue?_ofValue : ∀ value : Value, (ofValue value).toValue? = some value
  | .record fields => by rw [ofValue, toValue?, toFields_ofFields fields]
  | .list items => by rw [ofValue, toValue?, toItems_ofItems items]
  | .null => rfl
  | .bool _ => rfl
  | .number _ => rfl
  | .string _ => rfl

theorem toItems_ofItems : ∀ items : List Value, toItems (ofItems items) = items
  | [] => rfl
  | item :: rest => by rw [ofItems, toItems, toValue?_ofValue item, toItems_ofItems rest]

theorem toFields_ofFields : ∀ fields : List (String × Value), toFields (ofFields fields) = fields
  | [] => rfl
  | (name, field) :: rest => by
    rw [ofFields, toFields, toValue?_ofValue field, toFields_ofFields rest]

end

/-- Whether something may be given for a field in place of nothing: `null`, or the default. -/
inductive Substitute (default : Option Value) : Option Provider → Prop where
  | missing : Substitute default none
  | null : Substitute default (some (.value .null))
  | default {value : Value} : default = some value → value.isNull = false →
      Substitute default (some (.ofValue value))

end Provider

/-- The literal that a field falls back on. The default of a text goes before that of its
integer. -/
def Node.fallback : Node → Option Value
  | .mk (.int _) _ default (.text text) => text.default.or default
  | .mk _ _ default _ => default

/-! ## Sights -/

/-- What a node of a pass has to do with the gap. -/
inductive Sight where
  /-- The node looks up the field that is left open. -/
  | gap (node : Node)
  /-- The node takes as its value what the gap is in. -/
  | around (node : Node)

namespace Finding

/-- The sight of a node that takes what it finds as its value. -/
def sights (node : Node) : Finding → List Sight
  | given _ => []
  | gap => [.gap node]
  | around _ => [.around node]

/-- The sight of a node that passes what it finds on to its children. -/
def passed (node : Node) : Finding → List Sight
  | given _ => []
  | gap => [.gap node]
  | around _ => []

end Finding

namespace Write

variable {α β : Type}

/-- The result of a script, if it ends well. -/
def Script.results (script : Script α) : List α := script.outcome.toOption.toList

theorem Script.mem_results {script : Script α} {a : α} :
    a ∈ script.results ↔ script.outcome = .ok a := by
  unfold results
  cases script.outcome with
  | error error => simp [Except.toOption]
  | ok b => simp [Except.toOption, eq_comm]

namespace Pass

/-- Checks and writes the number of items of a list. -/
def counted (kind : IntKind) (scope : Scope) (count : Nat) : Script Unit := do
  let order ← .ofExcept (scope.fieldOrder kind.label)
  let n ← .ofCheck scope.trail (countOf kind (.int count))
  scalar scope kind.label (kind.encode order n)

variable (pass : Pass)

mutual

/-- The sights of a node and of all below it, up to where the pass ends if the field is missing. -/
def sights (site : Site) (scope : Scope) (outlook : Outlook) (record : Fields Value) :
    Node → List Sight
  | .mk kind name default payload =>
    let node := Node.mk kind name default payload
    let here := scope.field node.label
    let own := (Script.ofExcept (here.fieldOrder kind.label)).results.flatMap fun _ =>
      (outlook.find name).sights node
    match kind with
    | .order order children =>
      sightsAll (site.below .child node) (scope.withOrder order) (fun _ => outlook.enter) 0 record
        children
    | .group children =>
      sightsAll (site.below .child node) scope (fun _ => outlook.enter) 0 record children
    | .directory path children =>
      (outlook.enter.find (some path)).passed node ++
        sightsAll (site.below .child node) (scope.enterDir path) (fun _ => outlook.below path) 0
          record children
    | .file path children =>
      (Script.ofExcept (scope.enterFile path)).results.flatMap fun inner =>
        (outlook.enter.find (some path)).passed node ++
          sightsAll (site.below .child node) inner (fun _ => outlook.below path) 0
            (if pass.nest then [] else record) children
    | .select choose =>
      sightsChosen (site.ofSelect node) scope outlook record
        (choose (scope.context pass.user record))
    | .text _ => []
    | .custom _ => own
    | .float _ => own
    | .int kind =>
      match payload with
      | .none => own
      | .text _ => own
      | .sequence elements =>
        own ++
          match outlook.find name with
          | .around (.item before inner after) =>
            -- the items before are without the gap, and those behind as well
            let items := before ++ inner.fill none :: after
            let visit : Visit := ⟨site, scope, outlook.fill none, record, node⟩
            (counted kind here items.length).results.flatMap fun _ =>
              let earlier : Script (List Value) :=
                .collect before.length (pass.itemOf elements visit (.ofList items))
              earlier.results.flatMap fun _ =>
                sightsAll (site.below .element node) (here.item before.length)
                  (.ofItem elements.length inner) 0 [] elements
          | _ => []
termination_by structural node => node

/-- The sights of the result of a select. -/
def sightsChosen (site : Site) (scope : Scope) (outlook : Outlook) (record : Fields Value) :
    Noted Node → List Sight
  | ⟨node, _⟩ =>
    (Script.ofExcept (Schema.attachAt site node)).results.flatMap fun schema =>
      sights schema.rootSite scope outlook record node
termination_by structural chosen => chosen

/-- The sights of nodes one after the other, of which the first has the number `index`. -/
def sightsAll (site : Site) (scope : Scope) (outlooks : Nat → Outlook) (index : Nat)
    (record : Fields Value) : List Node → List Sight
  | [] => []
  | node :: rest =>
    sights site scope (outlooks index) record node ++
      (pass.walk site scope ((outlooks index).fill none) record node).results.flatMap fun kept =>
        sightsAll site scope outlooks (index + 1) kept.2 rest
termination_by structural nodes => nodes

end

/-! ## Fields that look into the gap -/

open Script

variable {pass} {name : Option String} {default : Option Value} {scope : Scope}
  {input other : Input} {record : Fields Value} {content : Option Provider}

theorem literal_of_missing (h : input.lookup? name = none) :
    pass.literal name scope input record = Pure.pure none := by
  unfold literal provided
  rw [h]
  rfl

/-- With a substitute for nothing the default stands in, or is given. -/
theorem literal_of_substitute (h : Provider.Substitute default content)
    (hlookup : input.lookup? name = content) :
    ∃ given : Option Value, pass.literal name scope input record = Pure.pure given ∧
      given.or default = default := by
  unfold literal provided
  rw [hlookup]
  cases h with
  | missing => exact ⟨none, rfl, rfl⟩
  | null => exact ⟨none, rfl, rfl⟩
  | @default value hdefault hnull =>
    refine ⟨some value, ?_, hdefault.symm⟩
    dsimp only
    rw [compute_ofValue]
    show (Pure.pure ((((some (Provider.ofValue value)).bind Provider.toValue?).filter fun value =>
      !value.isNull)) : Script (Option Value)) = _
    rw [Option.bind_some, Provider.toValue?_ofValue, Option.filter_some, hnull]
    rfl

section

variable (h : Provider.Substitute default content) (hmissing : input.lookup? name = none)
  (hlookup : other.lookup? name = content)

include h hmissing hlookup

theorem resolve_of_substitute (kind : String) :
    pass.resolve kind name default scope other record =
      pass.resolve kind name default scope input record := by
  obtain ⟨given, hliteral, hgiven⟩ := literal_of_substitute h hlookup
  unfold resolve
  rw [hliteral, literal_of_missing hmissing, Script.pure_bind, Script.pure_bind, hgiven]
  rfl

theorem custom_of_substitute (codec : Codec) (kind : String) :
    pass.custom codec kind name default scope other record =
      pass.custom codec kind name default scope input record := by
  obtain ⟨given, hliteral, hgiven⟩ := literal_of_substitute h hlookup
  unfold custom
  refine congrArg (ofExcept _ >>= ·) (funext fun order => ?_)
  rw [hliteral, literal_of_missing hmissing, Script.pure_bind, Script.pure_bind, hgiven]
  rfl

theorem supplier_of_substitute :
    pass.supplier name default scope other record =
      pass.supplier name default scope input record := by
  unfold supplier provided
  rw [hmissing, hlookup]
  cases h with
  | missing => rfl
  | null => cases default <;> rfl
  | @default value hdefault hnull =>
    dsimp only
    rw [compute_ofValue, hdefault]
    cases value with
    | null => cases hnull
    | _ => rfl

end

/-! ## Fields that take the gap with their value -/

theorem literal_around {gapped : Gapped} (h : input.lookup? name = some (gapped.fill content)) :
    ∃ value : Value, pass.literal name scope input record = Pure.pure (some value) ∧
      value.shape = gapped.shape ∧ (value.shape = .record ∨ value.shape = .list) := by
  obtain ⟨value, hvalue, hnull, hshape, hnested⟩ := gapped.toValue?_fill content
  refine ⟨value, ?_, hshape, hshape.symm ▸ hnested⟩
  unfold literal provided
  rw [h]
  dsimp only
  rw [pass.compute_of_not_computed (gapped.isComputed_fill content)]
  show (Pure.pure (((some (gapped.fill content)).bind Provider.toValue?).filter fun value =>
    !value.isNull) : Script (Option Value)) = _
  rw [Option.bind_some, hvalue, Option.filter_some, hnull]
  rfl

section

variable {γ : Type} {gapped : Gapped} {check : Value → Except Reason γ} {refusal : Shape → Reason}
  (hrecord : ∀ fields, check (.record fields) = .error (refusal .record))
  (hlist : ∀ items, check (.list items) = .error (refusal .list))

include hrecord hlist

/-- A record or a list is refused for its shape. -/
theorem incurious_refused (h : input.lookup? name = some (gapped.fill content)) (kind : String)
    (next : Value → γ → Script β) :
    Script.incurious (pass.resolve kind name default scope input record >>= fun value =>
      ofCheck scope.trail (check value) >>= next value) =
        .fail (.invalidValue scope.trail (refusal gapped.shape)) := by
  obtain ⟨value, hliteral, hshape, hnested⟩ := literal_around h
  have hrefused : check value = .error (refusal value.shape) := by
    cases value with
    | record fields => exact hrecord fields
    | list items => exact hlist items
    | _ => rcases hnested with h | h <;> cases h
  unfold resolve
  rw [hliteral]
  show Script.incurious (ofCheck scope.trail (check value) >>= next value) = _
  rw [hrefused, hshape]
  rfl

/-- So whatever is in its gap makes no difference. -/
theorem refused_alike (hinput : input.lookup? name = some (gapped.fill none))
    (hother : other.lookup? name = some (gapped.fill content)) (kind : String)
    (next : Value → γ → Script β) :
    (pass.resolve kind name default scope input record >>= fun value =>
        ofCheck scope.trail (check value) >>= next value).Alike
      (pass.resolve kind name default scope other record >>= fun value =>
        ofCheck scope.trail (check value) >>= next value) :=
  (incurious_refused hrecord hlist hother kind next).trans
    (incurious_refused hrecord hlist hinput kind next).symm

end

/-- A record is no list. -/
theorem sequence_record {kind : IntKind} {elements : List Node} {fields : Fields Provider}
    (h : input.lookup? name = some (.record fields))
    (write : Scope → Provider → Script (List Value × Fields Value)) :
    pass.sequence kind elements name default scope input record write =
      ofExcept (scope.fieldOrder kind.label) >>= fun _ =>
        .fail (.invalidValue scope.trail .notList) := by
  unfold sequence supplier provided
  rw [h]
  cases default <;> rfl

/-- A list is written as the number of its items and then the items. -/
theorem sequence_list {kind : IntKind} {elements : List Node} {items : List Provider}
    (h : input.lookup? name = some (.list items))
    (write : Scope → Provider → Script (List Value × Fields Value)) :
    pass.sequence kind elements name default scope input record write =
      counted kind scope items.length >>= fun _ =>
        .collect items.length (pass.writeItem elements scope (.ofList items) write) >>=
          fun values => Pure.pure (keep name record (.list values)) := by
  unfold sequence supplier provided counted
  rw [h]
  simp only [Script.bind_assoc]
  refine congrArg (ofExcept _ >>= ·) (funext fun order => ?_)
  cases default <;> rfl

/-- An item that is given is written as it is. -/
theorem writeItem_given {elements : List Node} {items : List Provider} {index : Nat}
    {item : Provider} (h : items[index]? = some item) (hcomputed : item.isComputed = false)
    (write : Scope → Provider → Script (List Value × Fields Value)) :
    pass.writeItem elements scope (.ofList items) write index =
      write (scope.item index) item >>= fun walked =>
        event (.itemDone scope.trail index) >>= fun _ =>
          Pure.pure (Node.itemValue elements walked.2 walked.1) := by
  have hitem : ((Supply.ofList items).item index).value = item := by
    rw [Supply.item_ofList, h]
    rfl
  unfold writeItem
  rw [pull_bind]
  show pass.compute _ _ ((Supply.ofList items).item index).value >>= _ = _
  rw [hitem, pass.compute_of_not_computed hcomputed]
  rfl

/-- An item makes a difference to itself only. -/
theorem writeItem_other {elements : List Node} {items others : List Provider} {index : Nat}
    (h : others[index]? = items[index]?)
    (write : Scope → Provider → Script (List Value × Fields Value)) :
    pass.writeItem elements scope (.ofList others) write index =
      pass.writeItem elements scope (.ofList items) write index := by
  have hitem : (Supply.ofList others).item index = (Supply.ofList items).item index := by
    rw [Supply.item_ofList, Supply.item_ofList, h]
  unfold writeItem pull
  rw [hitem]
  rfl

end Pass

end Write

/-! ## Trees -/

/-- Whether a node does not tell a content of the gap from nothing. -/
def Sight.Allows (content : Option Provider) : Sight → Prop
  | gap node => node.kind.isField = true ∧ Provider.Substitute node.fallback content
  | around node => ∀ codec, node.kind ≠ .custom codec

namespace Write

namespace Pass

open Script

variable {pass : Pass} {content : Option Provider}

/-- A scalar or a text is written alike if it does not tell the contents of the gap apart. -/
theorem checked_alike {γ : Type} {node : Node} {name : Option String} {default : Option Value}
    {scope : Scope} {input other : Input} {record : Fields Value} {found : Finding}
    (hinput : input.lookup? name = found.fill none)
    (hother : other.lookup? name = found.fill content)
    (h : ∀ sight ∈ found.sights node, sight.Allows content) (hdefault : node.fallback = default)
    {check : Value → Except Reason γ} (refusal : Shape → Reason)
    (hrecord : ∀ fields, check (.record fields) = .error (refusal .record))
    (hlist : ∀ items, check (.list items) = .error (refusal .list)) (kind : String)
    (next : Value → γ → Script β) :
    (pass.resolve kind name default scope input record >>= fun value =>
        ofCheck scope.trail (check value) >>= next value).Alike
      (pass.resolve kind name default scope other record >>= fun value =>
        ofCheck scope.trail (check value) >>= next value) := by
  cases found with
  | given found => exact .of_eq (by rw [pass.resolve_congr (hother.trans hinput.symm)])
  | gap =>
    obtain ⟨-, hsubstitute⟩ := h (.gap node) List.mem_cons_self
    rw [hdefault] at hsubstitute
    exact .of_eq (by rw [resolve_of_substitute hsubstitute hinput hother])
  | around gapped => exact refused_alike hrecord hlist hinput hother kind next

/-- So is a custom node. -/
theorem custom_alike {node : Node} {name : Option String} {default : Option Value} {scope : Scope}
    {input other : Input} {record : Fields Value} {found : Finding}
    (hinput : input.lookup? name = found.fill none)
    (hother : other.lookup? name = found.fill content) {kind : String}
    (h : ∀ order, scope.fieldOrder kind = .ok order →
      ∀ sight ∈ found.sights node, sight.Allows content) (hdefault : node.fallback = default)
    (codec : Codec) (hnode : node.kind = .custom codec) :
    (pass.custom codec kind name default scope input record).Alike
      (pass.custom codec kind name default scope other record) := by
  cases horder : scope.fieldOrder kind with
  | error error =>
    refine .of_eq ?_
    unfold custom
    rw [horder]
    rfl
  | ok order =>
    refine .of_eq ?_
    cases found with
    | given found =>
      unfold custom
      rw [pass.literal_congr (hother.trans hinput.symm)]
    | gap =>
      obtain ⟨-, hsubstitute⟩ := h order horder (.gap node) List.mem_cons_self
      rw [hdefault] at hsubstitute
      exact custom_of_substitute hsubstitute hinput hother codec kind
    | around gapped => exact absurd hnode (h order horder (.around node) List.mem_cons_self codec)

/-- What is seen behind a script that ends well. -/
theorem allows_of_results {γ : Type} {script : Script γ} {sights : γ → List Sight}
    (h : ∀ sight ∈ script.results.flatMap sights, sight.Allows content) {c : γ}
    (hscript : script.outcome = .ok c) : ∀ sight ∈ sights c, sight.Allows content :=
  fun sight hsight => h sight (List.mem_flatMap.mpr ⟨c, mem_results.mpr hscript, hsight⟩)

section

variable {kind : IntKind} {elements : List Node} {name : Option String} {default : Option Value}
  {scope : Scope} {input other : Input} {record : Fields Value}
  {write : Scope → Provider → Script (List Value × Fields Value)}

/-- A list is written alike if the item with the gap is. -/
theorem list_alike {before after : List Provider} {inner : Gapped}
    (hinput : input.lookup? name = some (.list (before ++ inner.fill none :: after)))
    (hother : other.lookup? name = some (.list (before ++ inner.fill content :: after)))
    (h : let items := before ++ inner.fill none :: after
      (counted kind scope items.length).outcome = .ok () →
      (∃ values, (Script.collect before.length
        (pass.writeItem elements scope (.ofList items) write)).outcome = .ok values) →
      (write (scope.item before.length) (inner.fill none)).Alike
        (write (scope.item before.length) (inner.fill content))) :
    (pass.sequence kind elements name default scope input record write).Alike
      (pass.sequence kind elements name default scope other record write) := by
  have hlength : (before ++ inner.fill content :: after).length =
      (before ++ inner.fill none :: after).length := by
    rw [List.length_append, List.length_append, List.length_cons, List.length_cons]
  rw [sequence_list hinput, sequence_list hother, hlength]
  refine .after _ fun _ hcounted => .map (.collect fun index _ values hvalues => ?_) _
  rcases Nat.lt_trichotomy index before.length with hindex | rfl | hindex
  · refine .of_eq (writeItem_other ?_ write)
    rw [List.getElem?_append_left hindex, List.getElem?_append_left hindex]
  · have hhere : ∀ item, (before ++ item :: after)[before.length]? = some item := fun item => by
      rw [List.getElem?_append_right (Nat.le_refl _), Nat.sub_self, List.getElem?_cons_zero]
    rw [writeItem_given (hhere _) (inner.isComputed_fill none),
      writeItem_given (hhere _) (inner.isComputed_fill content)]
    exact (h hcounted ⟨values, hvalues⟩).map _
  · refine .of_eq (writeItem_other ?_ write)
    obtain ⟨rest, rfl⟩ : ∃ rest, index = before.length + (rest + 1) :=
      ⟨index - before.length - 1, by omega⟩
    rw [List.getElem?_append_right (Nat.le_add_right _ _),
      List.getElem?_append_right (Nat.le_add_right _ _), Nat.add_sub_cancel_left,
      List.getElem?_cons_succ, List.getElem?_cons_succ]

/-- So is a sequence, whatever it finds. -/
theorem sequence_alike {node : Node} {found : Finding}
    (hinput : input.lookup? name = found.fill none)
    (hother : other.lookup? name = found.fill content)
    (h : ∀ order, scope.fieldOrder kind.label = .ok order →
      ∀ sight ∈ found.sights node, sight.Allows content) (hdefault : node.fallback = default)
    (hitem : ∀ before inner after, found = .around (.item before inner after) →
      let items := before ++ inner.fill none :: after
      (counted kind scope items.length).outcome = .ok () →
      (∃ values, (Script.collect before.length
        (pass.writeItem elements scope (.ofList items) write)).outcome = .ok values) →
      (write (scope.item before.length) (inner.fill none)).Alike
        (write (scope.item before.length) (inner.fill content))) :
    (pass.sequence kind elements name default scope input record write).Alike
      (pass.sequence kind elements name default scope other record write) := by
  cases found with
  | given found =>
    refine .after _ fun order _ => .of_eq ?_
    unfold supplier
    rw [pass.provided_congr (hother.trans hinput.symm)]
  | gap =>
    refine .after _ fun order horder => .of_eq ?_
    obtain ⟨-, hsubstitute⟩ := h order horder (.gap node) List.mem_cons_self
    rw [hdefault] at hsubstitute
    rw [supplier_of_substitute hsubstitute hinput hother]
  | around gapped =>
    cases gapped with
    | record others field =>
      obtain ⟨fields, hfields⟩ :
          ∃ fields, (Gapped.record others field).fill content = .record fields := by
        cases content <;> exact ⟨_, rfl⟩
      refine .of_eq ?_
      rw [sequence_record (hother.trans (congrArg some hfields)), sequence_record hinput]
    | entry others key inner =>
      refine .of_eq ?_
      rw [sequence_record hother, sequence_record hinput]
    | item before inner after => exact list_alike hinput hother (hitem before inner after rfl)

end

/-- What passes on what it finds does not find the gap itself. -/
theorem find_ne_gap {node : Node} {found : Finding} (hnode : node.kind.isField = false)
    (h : ∀ sight ∈ found.passed node, sight.Allows content) : found ≠ .gap := by
  rintro rfl
  obtain ⟨hfield, -⟩ := h (.gap node) List.mem_cons_self
  rw [hnode] at hfield
  cases hfield

mutual

/-- **A tree writes alike with the gap filled and with the field missing**, if no node that has to
do with the gap tells the two apart. -/
theorem walk_alike (site : Site) (scope : Scope) (outlook : Outlook) (record : Fields Value) :
    ∀ node : Node,
      (∀ sight ∈ pass.sights site scope outlook record node, sight.Allows content) →
      (pass.walk site scope (outlook.fill none) record node).Alike
        (pass.walk site scope (outlook.fill content) record node)
  | .mk kind name default payload => by
    intro h
    have hnone := outlook.lookup?_fill none name
    have hcontent := outlook.lookup?_fill content name
    cases kind with
    | order order children =>
      rw [sights] at h
      rw [walk, walk, outlook.enter_fill, outlook.enter_fill]
      exact (walkAll_alike _ _ (fun _ => outlook.enter) 0 record children h).map _
    | group children =>
      rw [sights] at h
      rw [walk, walk, outlook.enter_fill, outlook.enter_fill]
      exact (walkAll_alike _ scope (fun _ => outlook.enter) 0 record children h).map _
    | directory path children =>
      rw [sights] at h
      obtain ⟨hpassed, hchildren⟩ := List.forall_mem_append.mp h
      have hentry := find_ne_gap rfl hpassed
      rw [walk, walk, outlook.below_fill none hentry, outlook.below_fill content hentry]
      exact (walkAll_alike _ _ (fun _ => outlook.below path) 0 record children hchildren).map _
    | file path children =>
      rw [sights] at h
      rw [walk, walk]
      refine Alike.map (.after _ fun inner hinner => ?_) _
      obtain ⟨hpassed, hchildren⟩ := List.forall_mem_append.mp (allows_of_results h hinner)
      have hentry := find_ne_gap rfl hpassed
      simp only [outlook.below_fill none hentry, outlook.below_fill content hentry]
      exact .after _ fun _ _ => .after _ fun _ _ =>
        (walkAll_alike _ inner (fun _ => outlook.below path) 0 _ children hchildren).map _
    | select choose =>
      rw [sights] at h
      rw [walk, walk]
      exact .after _ fun _ _ => walkChosen_alike _ scope outlook record (choose _) h
    | text encoding =>
      rw [walk, walk]
      exact .of_eq rfl
    | custom codec =>
      rw [sights] at h
      rw [walk, walk]
      exact custom_alike hnone hcontent (fun order horder => allows_of_results h horder) rfl codec
        rfl
    | float kind =>
      rw [sights] at h
      rw [walk, walk]
      refine .after _ fun order horder => ?_
      exact checked_alike hnone hcontent (allows_of_results h horder) rfl .notNumber
        (fun _ => rfl) (fun _ => rfl) _ _
    | int kind =>
      cases payload with
      | none =>
        rw [sights] at h
        rw [walk, walk]
        refine .after _ fun order horder => ?_
        exact checked_alike hnone hcontent (allows_of_results h horder) rfl .notInteger
          (fun _ => rfl) (fun _ => rfl) _ _
      | text text =>
        rw [sights] at h
        rw [walk, walk]
        refine .after _ fun order horder => ?_
        cases text.kind with
        | text encoding =>
          exact checked_alike hnone hcontent (allows_of_results h horder) rfl .notText
            (fun _ => rfl) (fun _ => rfl) _ _
        | _ => exact .of_eq rfl
      | sequence elements =>
        rw [sights] at h
        obtain ⟨hown, hitems⟩ := List.forall_mem_append.mp h
        rw [walk, walk]
        refine sequence_alike hnone hcontent
          (fun order horder => allows_of_results hown horder) rfl ?_
        rintro before inner after hfind items hcounted ⟨values, hvalues⟩
        rw [hfind] at hitems
        have hinner := allows_of_results (allows_of_results hitems hcounted) hvalues
        have hinputs : ∀ content, itemInput elements.length (inner.fill content) =
            fun index => (Outlook.ofItem elements.length inner index).fill content :=
          fun content => funext fun index => Outlook.itemInput_fill content _ inner index
        rw [hinputs, hinputs]
        exact walkAll_alike _ _ _ 0 [] elements hinner
termination_by structural node => node

theorem walkChosen_alike (site : Site) (scope : Scope) (outlook : Outlook)
    (record : Fields Value) : ∀ chosen : Noted Node,
      (∀ sight ∈ pass.sightsChosen site scope outlook record chosen, sight.Allows content) →
      (pass.walkChosen site scope (outlook.fill none) record chosen).Alike
        (pass.walkChosen site scope (outlook.fill content) record chosen)
  | ⟨node, notes⟩ => by
    intro h
    rw [sightsChosen] at h
    rw [walkChosen, walkChosen]
    refine .after _ fun _ _ => .after _ fun schema hschema => ?_
    refine walk_alike schema.rootSite scope outlook record node fun sight hsight => h sight ?_
    exact List.mem_flatMap.mpr ⟨schema, mem_results.mpr hschema, hsight⟩
termination_by structural chosen => chosen

theorem walkAll_alike (site : Site) (scope : Scope) (outlooks : Nat → Outlook) (index : Nat)
    (record : Fields Value) : ∀ nodes : List Node,
      (∀ sight ∈ pass.sightsAll site scope outlooks index record nodes, sight.Allows content) →
      (pass.walkAll site scope (fun index => (outlooks index).fill none) index record nodes).Alike
        (pass.walkAll site scope (fun index => (outlooks index).fill content) index record nodes)
  | [] => by
    intro _
    rw [walkAll, walkAll]
    exact .of_eq rfl
  | node :: rest => by
    intro h
    rw [sightsAll] at h
    obtain ⟨hnode, hrest⟩ := List.forall_mem_append.mp h
    rw [walkAll, walkAll]
    refine (walk_alike site scope (outlooks index) record node hnode).bind fun kept hkept => ?_
    refine (walkAll_alike site scope outlooks (index + 1) kept.2 rest fun sight hsight => ?_).map _
    exact hrest sight (List.mem_flatMap.mpr ⟨kept, mem_results.mpr hkept, hsight⟩)
termination_by structural nodes => nodes

end

end Pass

end Write

open Write

/-! ## Whole passes -/

namespace Schema

variable (schema : Schema) (gapped : Gapped) (options : Options)

/-- The sights of a write pass. -/
def sights : List Sight :=
  let pass := schema.writePass options
  if schema.fileCount = 0 then
    (Script.ofExcept (splitTarget options.path)).results.flatMap fun (dir, name) =>
      (Script.ofExcept ((Scope.base dir).enterFile name)).results.flatMap fun inner =>
        pass.sightsAll schema.rootSite inner (fun _ => .within gapped) 0 [] [schema.root]
  else pass.sights schema.rootSite (.base options.path) (.within gapped) [] schema.root

variable {schema gapped options}

theorem writeScript_alike {content : Option Provider}
    (h : ∀ sight ∈ schema.sights gapped options, sight.Allows content) :
    (schema.writeScript (gapped.fill none) options).Alike
      (schema.writeScript (gapped.fill content) options) := by
  unfold sights at h
  unfold writeScript
  by_cases hfiles : schema.fileCount = 0
  · rw [if_pos hfiles] at h
    rw [if_pos hfiles, if_pos hfiles]
    refine .after _ fun target htarget => .after _ fun _ _ => .after _ fun inner hinner => ?_
    have hroot := Pass.allows_of_results (Pass.allows_of_results h htarget) hinner
    refine .after _ fun _ _ => .after _ fun _ _ => Script.Alike.map ?_ _
    rw [ite_self]
    exact Pass.walkAll_alike _ inner (fun _ => .within gapped) 0 [] [schema.root] hroot
  · rw [if_neg hfiles] at h
    rw [if_neg hfiles, if_neg hfiles]
    exact (Pass.walk_alike schema.rootSite _ (.within gapped) [] schema.root h).map _

/-- **Missing, null and default are interchangeable.** Let one field of any record inside a provider
be left open, in whatever records and lists the record is. Let no node but one look it up, an
integer, a float, a text, a sequence or a custom node, and let no custom node take as its value the
record or anything that the record is part of. Then the pass does the same, whatever its sinks do,
when the field is missing and when it is `null`; and if the node has a default other than
`null`, also when the field is the default. Files and their bytes are the same, the record that is
kept, the error if there is one, and the journal with all callbacks; only where a record is given to
an integer, a float or a text, and so is refused, it is another record that the journal says was
found. -/
theorem gap_filled (schema : Schema) (gapped : Gapped) (options : Options) (opener : SinkOpener)
    (node : Node) (hfield : node.kind.isField = true)
    (hone : ∀ other, Sight.gap other ∈ schema.sights gapped options → other = node)
    (hcustom : ∀ other, Sight.around other ∈ schema.sights gapped options →
      ∀ codec, other.kind ≠ .custom codec) :
    let report content := schema.write (gapped.fill content) options opener
    (report none).Alike (report (some (.value .null))) ∧
      ∀ default, node.fallback = some default → default ≠ .null →
        (report none).Alike (report (some (.ofValue default))) := by
  intro report
  have hsubstitute : ∀ content, Provider.Substitute node.fallback content →
      (report none).Alike (report content) := by
    intro content hcontent
    refine (writeScript_alike fun sight hsight => ?_).report _ _
    cases sight with
    | gap other =>
      obtain rfl := hone other hsight
      exact ⟨hfield, hcontent⟩
    | around other => exact hcustom other hsight
  refine ⟨hsubstitute _ .null, fun default hdefault hnull => hsubstitute _ (.default hdefault ?_)⟩
  cases default with
  | null => exact absurd rfl hnull
  | _ => rfl

/-! ## A default with a null inside -/

/-- Points whose number and coordinates both have defaults. -/
def points : Node :=
  ((byteField "points").withSequence [(byteField "x").withDefault (.int 7)]).withDefault
    (.list [.record [("x", .null)]])

def rows : Node := (byteField "rows").withSequence [points, byteField "n"]

def chart : Schema := ⟨.ofKind (.order .big [rows]), .root, rfl⟩

/-- One row, of which the points are left open. -/
def chartGap : Gapped := .entry [] "rows" (.item [] (.record [("n", .value (.int 3))] "points") [])

theorem sights_chart : chart.sights chartGap taggedOptions = [.around rows, .gap points] := by
  unfold sights
  rw [show splitTarget taggedOptions.path = _ from splitTarget_out]
  rfl

theorem gap_filled_chart :
    let report content := chart.write (chartGap.fill content) taggedOptions
      fun _ _ => .ok .faultless
    (report none).contents = [(Path.resolve "" "out", [1, 1, 7, 3])] ∧
      (report (some (.value .null))).contents = [(Path.resolve "" "out", [1, 1, 7, 3])] ∧
      (report (some (.list [.record [("x", .value .null)]]))).contents =
        [(Path.resolve "" "out", [1, 1, 7, 3])] := by
  intro report
  obtain ⟨hnull, hdefault⟩ := gap_filled chart chartGap taggedOptions (fun _ _ => .ok .faultless)
    points rfl (fun other hother => by simpa [sights_chart] using hother)
    (fun other hother => by
      rw [sights_chart] at hother
      obtain rfl : other = rows := by simpa using hother
      exact nofun)
  have hmissing : (report none).contents = [(Path.resolve "" "out", [1, 1, 7, 3])] := by
    have hscript : ∃ record,
        (chart.writeScript (chartGap.fill none) taggedOptions).outcome = .ok record ∧
          Step.files [] (chart.writeScript (chartGap.fill none) taggedOptions).steps =
            [(Path.resolve "" "out", [1, 1, 7, 3])] := by
      rw [Schema.writeScript_single rfl _ splitTarget_out]
      exact ⟨_, rfl, rfl⟩
    obtain ⟨record, hrecord, hfiles⟩ := hscript
    exact (contents_write SinkOpener.neverFails_faultless hrecord).trans hfiles
  exact ⟨hmissing, hnull.contents.trans hmissing,
    (hdefault _ rfl nofun).contents.trans hmissing⟩

/-! ## A custom node that takes the record -/

/-- Puts the number of entries of a record. -/
def measuring : Codec where
  encode context value :=
    match value with
    | .record fields => .putInt context.order .u8 fields.length
    | _ => .putInt context.order .u8 0
  decode context := do
    let count ← Decoding.readInt context.order .u8
    return .int count

/-- A custom node that takes a record of the same name as the directory that leads into it. -/
def sized : Schema :=
  ⟨.ofKind (.order .big [(Node.ofKind (.custom measuring)).named "a",
    .ofKind (.directory "a" [(byteField "x").withDefault (.int 5)])]), .root, rfl⟩

/-- The record has no other entry. -/
def sizedGap : Gapped := .entry [] "a" (.record [] "x")

/-- **What is missing is not `null` to a custom node that takes the whole record**, even if that is
a node with a name and no other node looks the field up. -/
theorem gap_measured :
    let report content := sized.write (sizedGap.fill content) taggedOptions
      fun _ _ => .ok .faultless
    sized.sights sizedGap taggedOptions =
        [.around ((Node.ofKind (.custom measuring)).named "a"),
          .gap ((byteField "x").withDefault (.int 5))] ∧
      (report none).contents = [(Path.resolve "" "out", [0, 5])] ∧
      (report (some (.value .null))).contents = [(Path.resolve "" "out", [1, 5])] := by
  intro report
  have hwritten : ∀ content bytes, (∃ record,
      (sized.writeScript (sizedGap.fill content) taggedOptions).outcome = .ok record ∧
        Step.files [] (sized.writeScript (sizedGap.fill content) taggedOptions).steps =
          [(Path.resolve "" "out", bytes)]) →
      (report content).contents = [(Path.resolve "" "out", bytes)] := by
    rintro content bytes ⟨record, hrecord, hfiles⟩
    exact (contents_write SinkOpener.neverFails_faultless hrecord).trans hfiles
  refine ⟨?_, hwritten _ _ ?_, hwritten _ _ ?_⟩
  · unfold sights
    rw [show splitTarget taggedOptions.path = _ from splitTarget_out]
    rfl
  · rw [Schema.writeScript_single rfl _ splitTarget_out]
    exact ⟨_, rfl, rfl⟩
  · rw [Schema.writeScript_single rfl _ splitTarget_out]
    exact ⟨_, rfl, rfl⟩

end Schema

end ByteLayout
