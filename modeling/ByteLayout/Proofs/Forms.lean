import ByteLayout.Proofs.Fields
import ByteLayout.Proofs.Turns

/-!
# Items by position and by name

Where an item of a sequence has several named elements, what is given for it may be a list, with the
values of the elements in their order, or a record, with the values under their names. A node looks
its value up, and it does not matter in which of the two forms it finds it.

Which items may take another form depends on the elements that they are written with, so two inputs
are compared from the node that reads them (`Node.Reforms`): they hold the same, except that items
of such sequences may be given in different forms.

**Step (`Provider.Form.lookup?`).** In both forms an element finds the same.

**Theorem (`Schema.write_reformed`).** Two passes over providers that differ in the forms of their
items only are the same: the same files, the same record, the same callbacks in the same contexts,
the same error.
-/

namespace ByteLayout

namespace Fields

variable {α : Type} {names : List String} {values : List α}

theorem map_fst_zip (h : values.length ≤ names.length) :
    (names.zip values).map Prod.fst = names.take values.length := by
  rw [List.zip_eq_zip_take_min, Nat.min_eq_right h, List.take_length, List.map_fst_zip]
  rw [List.length_take]
  exact Nat.min_le_left _ _

/-- Entries that are made of names and values hold the values under the names. -/
theorem get?_ofList_zip (hnodup : names.Nodup) (hlength : values.length ≤ names.length)
    {index : Nat} {name : String} (hname : names[index]? = some name) :
    get? (ofList (names.zip values)) name = values[index]? := by
  have hfirst := map_fst_zip hlength
  cases hvalue : values[index]? with
  | some value =>
    refine get?_ofList_of_mem (hfirst ▸ hnodup.sublist (List.take_sublist _ _)) ?_
    exact List.mem_of_getElem? (List.getElem?_zip_eq_some.mpr ⟨hname, hvalue⟩)
  | none =>
    refine get?_foldl_insert_of_not_mem _ [] fun hmem => ?_
    rw [hfirst] at hmem
    obtain ⟨other, hother, heq⟩ := List.mem_take_iff_getElem.mp hmem
    have hindex := (List.getElem?_eq_some_iff.mp hname).1
    have hsame : index = other := (List.getElem?_inj hindex hnodup).mp
      (hname.trans (List.getElem?_eq_some_iff.mpr ⟨_, heq⟩).symm)
    have hbound := List.getElem?_eq_none_iff.mp hvalue
    omega

end Fields

/-! ## The two forms of an item -/

namespace Provider

/-- A provider that gives values to elements of the given names, by position or by name. -/
inductive Form (names : List String) (values : List Provider) : Provider → Prop where
  | positional : Form names values (.list values)
  | keyed : Form names values (.record (Fields.ofList (names.zip values)))

/-- In both forms an element finds the value in its position, if there is one. -/
theorem Form.lookup? {names : List String} {values : List Provider} {item : Provider}
    (h : Form names values item) (hseveral : 2 ≤ names.length) (hnodup : names.Nodup)
    (hlength : values.length ≤ names.length) {index : Nat} {name : String}
    (hname : names[index]? = some name) :
    (Write.Pass.itemInput names.length item index).lookup? (some name) = values[index]? := by
  cases h with
  | positional =>
    have hseveral : 1 < names.length := hseveral
    unfold Write.Pass.itemInput
    dsimp only
    rw [if_pos hseveral]
    cases values[index]? <;> rfl
  | keyed => exact Fields.get?_ofList_zip hnodup hlength hname

/-- Whether a provider is computed when the pass comes to it. -/
def isComputed : Provider → Bool
  | .computed _ => true
  | _ => false

/-- Providers that are the same or related, or computed by callbacks that leave the same notes and
give the same or related results. -/
inductive Upto (R : Provider → Provider → Prop) : Provider → Provider → Prop where
  | same (provider : Provider) : Upto R provider provider
  | given {provider other : Provider} : R provider other → provider.isComputed = false →
      other.isComputed = false → Upto R provider other
  | computed {f g : FieldContext → Noted Provider} :
      (∀ context, (g context).notes = (f context).notes ∧
        ((g context).value = (f context).value ∨ R (f context).value (g context).value)) →
      Upto R (.computed f) (.computed g)

theorem Upto.mono {R S : Provider → Provider → Prop} {provider other : Provider}
    (h : Upto R provider other) (hRS : ∀ given given', R given given' → S given given') :
    Upto S provider other := by
  cases h with
  | same => exact .same _
  | given hrelated hgiven hgiven' => exact .given (hRS _ _ hrelated) hgiven hgiven'
  | computed hresults =>
    exact .computed fun context => ⟨(hresults context).1, (hresults context).2.imp_right (hRS _ _)⟩

theorem Upto.getD {R : Provider → Provider → Prop} {items others : List Provider}
    (h : List.Forall₂ (Upto R) items others) (index : Nat) :
    Upto R (items[index]?.getD .empty) (others[index]?.getD .empty) := by
  induction h generalizing index with
  | nil => exact .same _
  | cons hfirst _ ih =>
    cases index with
    | zero => exact hfirst
    | succ index => exact ih index

/-- Lists with related items, or lazy sequences that declare the same and have related items. -/
inductive Itemwise (R : Provider → Provider → Prop) : Provider → Provider → Prop where
  | list {items others : List Provider} : List.Forall₂ R items others →
      Itemwise R (.list items) (.list others)
  | lazy {f g : FieldContext → Noted (LazySequence Provider)} :
      (∀ context, (g context).notes = (f context).notes ∧
        (g context).value.count = (f context).value.count ∧
        (g context).value.length = (f context).value.length ∧
        ∀ index, ((g context).value.item index).notes = ((f context).value.item index).notes ∧
          R ((f context).value.item index).value ((g context).value.item index).value) →
      Itemwise R (.lazy f) (.lazy g)

theorem Itemwise.mono {R S : Provider → Provider → Prop} {provider other : Provider}
    (h : Itemwise R provider other) (hRS : ∀ given given', R given given' → S given given') :
    Itemwise S provider other := by
  cases h with
  | list hall => exact .list (hall.imp hRS)
  | lazy hall =>
    refine .lazy fun context => ?_
    obtain ⟨hnotes, hcount, hlength, hitems⟩ := hall context
    exact ⟨hnotes, hcount, hlength, fun index => ⟨(hitems index).1, hRS _ _ (hitems index).2⟩⟩

end Provider

namespace Node

/-- Whether two items give the same values to elements, each in one of its two forms. There are at
least two elements, all of them named fields, and no two of one name; payloads do not matter. -/
def Reform (elements : List Node) (item other : Provider) : Prop :=
  2 ≤ elements.length ∧ (∀ element ∈ elements, element.kind.isField = true) ∧
    ∃ names values, elements.map Node.name = names.map some ∧ names.Nodup ∧
      values.length ≤ names.length ∧
      Provider.Form names values item ∧ Provider.Form names values other

mutual

/-- Whether a node finds the same in two inputs, up to the forms of items. -/
def Reforms (input other : Input) : Node → Prop
  | .mk kind name _ payload =>
    match kind with
    | .order _ children | .group children =>
      ReformsAll (fun _ => input.enter) (fun _ => other.enter) 0 children
    | .directory path children | .file path children =>
      ReformsAll (fun _ => input.below path) (fun _ => other.below path) 0 children
    | .select choose => ∀ context, ReformsChosen input other (choose context)
    | .int _ =>
      match payload with
      | .sequence elements =>
        Option.Rel (Provider.Upto (Provider.Itemwise (Provider.Upto fun item item' =>
          Reform elements item item' ∨
            ReformsAll (Write.Pass.itemInput elements.length item)
              (Write.Pass.itemInput elements.length item') 0 elements)))
          (input.lookup? name) (other.lookup? name)
      | _ => other.lookup? name = input.lookup? name
    | _ => other.lookup? name = input.lookup? name
termination_by structural node => node

def ReformsChosen (input other : Input) : Noted Node → Prop
  | ⟨node, _⟩ => Reforms input other node
termination_by structural chosen => chosen

/-- The same of nodes one after the other, of which the first has the number `index`. -/
def ReformsAll (inputs others : Nat → Input) (index : Nat) : List Node → Prop
  | [] => True
  | node :: rest =>
    Reforms (inputs index) (others index) node ∧ ReformsAll inputs others (index + 1) rest
termination_by structural nodes => nodes

end

/-- A field that looks up the same finds the same. -/
theorem reforms_of_lookup? {input other : Input} {node : Node} (hfield : node.kind.isField = true)
    (hlookup : other.lookup? node.name = input.lookup? node.name) :
    node.Reforms input other := by
  obtain ⟨kind, name, default, payload⟩ := node
  change other.lookup? name = input.lookup? name at hlookup
  cases kind with
  | int kind =>
    cases payload with
    | sequence elements =>
      rw [Reforms, hlookup]
      cases input.lookup? name with
      | none => exact .none
      | some provider => exact .some (.same provider)
    | none => exact hlookup
    | text text => exact hlookup
  | float kind => exact hlookup
  | custom codec => exact hlookup
  | _ => cases hfield

theorem reformsAll_of_forall {inputs others : Nat → Input} {nodes : List Node} {index : Nat}
    (h : ∀ i (node : Node), nodes[i]? = some node →
      node.Reforms (inputs (index + i)) (others (index + i))) :
    ReformsAll inputs others index nodes := by
  induction nodes generalizing index with
  | nil =>
    rw [ReformsAll]
    trivial
  | cons node rest ih =>
    rw [ReformsAll]
    refine ⟨h 0 node rfl, ih fun i other hother => ?_⟩
    rw [Nat.add_right_comm, Nat.add_assoc]
    exact h (i + 1) other hother

/-- **An item may take its other form.** -/
theorem Reform.all {elements : List Node} {item other : Provider}
    (h : Reform elements item other) :
    ReformsAll (Write.Pass.itemInput elements.length item)
      (Write.Pass.itemInput elements.length other) 0 elements := by
  obtain ⟨hseveral, hfields, names, values, hnames, hnodup, hlength, hitem, hother⟩ := h
  have hcount : elements.length = names.length := by
    rw [← List.length_map, hnames, List.length_map]
  rw [hcount] at hseveral ⊢
  refine reformsAll_of_forall fun i node hnode => ?_
  obtain ⟨name, hname, hnamed⟩ : ∃ name, names[i]? = some name ∧ node.name = some name := by
    have hmap := congrArg (fun list => list[i]?) hnames
    rw [List.getElem?_map, List.getElem?_map, hnode] at hmap
    obtain ⟨name, hname, heq⟩ := Option.map_eq_some_iff.mp hmap.symm
    exact ⟨name, hname, heq.symm⟩
  refine reforms_of_lookup? (hfields node (List.mem_of_getElem? hnode)) ?_
  rw [Nat.zero_add, hnamed, hitem.lookup? hseveral hnodup hlength hname,
    hother.lookup? hseveral hnodup hlength hname]

end Node

/-! ## Scripts -/

namespace Write

namespace Pass

open Script

variable (pass : Pass) {name : Option String} {default : Option Value} {scope : Scope}
  {input other : Input} {record : Fields Value}

theorem provided_congr (h : other.lookup? name = input.lookup? name) :
    pass.provided name scope other record = pass.provided name scope input record := by
  unfold provided
  rw [h]

theorem literal_congr (h : other.lookup? name = input.lookup? name) :
    pass.literal name scope other record = pass.literal name scope input record := by
  unfold literal
  rw [pass.provided_congr h]

theorem resolve_congr (h : other.lookup? name = input.lookup? name) (kind : String)
    (default : Option Value) :
    pass.resolve kind name default scope other record =
      pass.resolve kind name default scope input record := by
  unfold resolve
  rw [pass.literal_congr h]

/-! ## What is computed -/

theorem compute_of_not_computed {provider : Provider} (h : provider.isComputed = false) :
    pass.compute scope record provider = Pure.pure provider := by
  cases provider with
  | computed f => cases h
  | _ => rfl

theorem called_bind {α β : Type} (call : Call) (answer : Noted α) (next : α → Script β) :
    called call answer >>= next =
      event (.call call) >>= fun _ => notes answer.notes >>= fun _ => next answer.value := by
  unfold called
  simp only [bind_assoc]
  rfl

/-- What does not tell related providers apart does not tell apart what they are computed from. -/
theorem compute_upto {α : Type} {R : Provider → Provider → Prop} {provider provider' : Provider}
    (h : Provider.Upto R provider provider') {next : Provider → Script α}
    (hnext : ∀ given given', R given given' → next given' = next given) :
    pass.compute scope record provider' >>= next = pass.compute scope record provider >>= next := by
  cases h with
  | same => rfl
  | given hrelated hgiven hgiven' =>
    rw [pass.compute_of_not_computed hgiven, pass.compute_of_not_computed hgiven']
    exact hnext _ _ hrelated
  | @computed f g hresults =>
    obtain ⟨hnotes, hvalue⟩ := hresults (scope.context pass.user record)
    have hsame : next (g (scope.context pass.user record)).value =
        next (f (scope.context pass.user record)).value := by
      rcases hvalue with hvalue | hvalue
      · rw [hvalue]
      · exact hnext _ _ hvalue
    show called _ _ >>= next = called _ _ >>= next
    rw [called_bind, called_bind, hnotes, hsame]

/-! ## Sequences -/

/-- What a sequence is written from, once it is known what the input has for it. -/
def chosen (default : Option Value) (scope : Scope) (found : Option Provider) : Script Provider :=
  match found, default with
  | some (.value .null), some value => return .ofValue value
  | some (.value .null), none => .fail (missing scope)
  | some provider, _ => return provider
  | none, some value => return .ofValue value
  | none, none => .fail (missing scope)

theorem supplier_bind {α : Type} (next : Provider → Script α) :
    pass.supplier name default scope input record >>= next =
      match input.lookup? name with
      | none => chosen default scope none >>= next
      | some provider => pass.compute scope record provider >>= fun given =>
          chosen default scope (some given) >>= next := by
  have hsupplier : pass.supplier name default scope input record =
      pass.provided name scope input record >>= chosen default scope := rfl
  rw [hsupplier, Script.bind_assoc]
  unfold provided
  cases input.lookup? name with
  | none => rfl
  | some provider => exact Script.bind_assoc _ _ _

theorem pull_bind {α : Type} (supply : Supply) (index : Nat) (next : Provider → Script α) :
    pass.pull scope supply index >>= next =
      if supply.isLazy then
        event (.pulled scope.trail index) >>= fun _ =>
          notes (supply.item index).notes >>= fun _ =>
            pass.compute (scope.item index) [] (supply.item index).value >>= next
      else pass.compute (scope.item index) [] (supply.item index).value >>= next := by
  unfold pull
  dsimp only
  cases supply.isLazy with
  | true =>
    simp only [if_true, Script.bind_assoc]
  | false => rfl

/-- Writes a sequence once what it is written from is known. -/
def supplied (kind : IntKind) (elements : List Node) (name : Option String) (scope : Scope)
    (record : Fields Value) (content : Scope → Provider → Script (List Value × Fields Value))
    (order : ByteOrder) (supply : Supply) : Script Kept := do
  let count ← .ofCheck scope.trail (countOf kind supply.count)
  scalar scope kind.label (kind.encode order count)
  let items ← .collect supply.length (pass.writeItem elements scope supply content)
  return keep name record (.list items)

/-- What is supplied for a sequence makes a difference by its count and its items only. -/
theorem supplied_congr {kind : IntKind} {elements : List Node}
    {content : Scope → Provider → Script (List Value × Fields Value)} (supply supply' : Supply)
    (hcount : supply'.count = supply.count) (hlength : supply'.length = supply.length)
    (hlazy : supply'.isLazy = supply.isLazy)
    (hitems : ∀ index, (supply'.item index).notes = (supply.item index).notes ∧
      Provider.Upto (fun item item' => ∀ inner, content inner item' = content inner item)
        (supply.item index).value (supply'.item index).value) (order : ByteOrder) :
    pass.supplied kind elements name scope record content order supply' =
      pass.supplied kind elements name scope record content order supply := by
  have hsame : pass.writeItem elements scope supply' content =
      pass.writeItem elements scope supply content := by
    funext index
    obtain ⟨hnotes, hitem⟩ := hitems index
    unfold writeItem
    rw [pull_bind, pull_bind, hlazy, hnotes, pass.compute_upto hitem fun given given' hgiven => ?_]
    rw [hgiven]
  unfold supplied
  rw [hcount, hlength, hsame]

/-- A list or a lazy sequence is chosen as it is. -/
theorem chosen_itemwise {R : Provider → Provider → Prop} {given given' : Provider}
    (h : Provider.Itemwise R given given') :
    chosen default scope (some given) = Pure.pure given ∧
      chosen default scope (some given') = Pure.pure given' := by
  cases h <;> cases default <;> exact ⟨rfl, rfl⟩

/-- What is made for a sequence makes a difference by its items only. -/
theorem supply_upto {kind : IntKind} {elements : List Node}
    {content : Scope → Provider → Script (List Value × Fields Value)} {given given' : Provider}
    (h : Provider.Itemwise (Provider.Upto fun item item' =>
      ∀ inner, content inner item' = content inner item) given given') (order : ByteOrder) :
    pass.supply scope record given' >>=
        pass.supplied kind elements name scope record content order =
      pass.supply scope record given >>=
        pass.supplied kind elements name scope record content order := by
  cases h with
  | @list items others hall =>
    have hlength : others.length = items.length := hall.length_eq.symm
    refine pass.supplied_congr (.ofList items) (.ofList others)
      (congrArg (fun count : Nat => Value.int count) hlength) hlength rfl
      (fun index => ⟨rfl, ?_⟩) order
    rw [Supply.item_ofList, Supply.item_ofList]
    exact .getD hall index
  | @lazy f g hall =>
    obtain ⟨hnotes, hcount, hlength, hall⟩ := hall (scope.context pass.user record)
    show (called _ _ >>= _) >>= _ = (called _ _ >>= _) >>= _
    rw [Script.bind_assoc, Script.bind_assoc, called_bind, called_bind, hnotes]
    refine congrArg (event _ >>= ·) (funext fun _ => congrArg (notes _ >>= ·)
      (funext fun _ => ?_))
    show event (.generated scope.trail (g _).value.count (g _).value.length) >>= (fun _ => _) =
      event _ >>= fun _ => _
    rw [hcount, hlength]
    exact congrArg (event _ >>= ·) (funext fun _ => pass.supplied_congr (.ofLazy (f _).value)
      (.ofLazy (g _).value) hcount hlength rfl hall order)

/-- **A sequence is the same for items that its elements do not tell apart.** -/
theorem sequence_upto {R : Provider → Provider → Prop} {kind : IntKind} {elements : List Node}
    {content : Scope → Provider → Script (List Value × Fields Value)}
    (h : Option.Rel (Provider.Upto (Provider.Itemwise (Provider.Upto R)))
      (input.lookup? name) (other.lookup? name))
    (hR : ∀ item item', R item item' → ∀ inner, content inner item' = content inner item) :
    pass.sequence kind elements name default scope other record content =
      pass.sequence kind elements name default scope input record content := by
  have hsequence : ∀ input, pass.sequence kind elements name default scope input record content =
      .ofExcept (scope.fieldOrder kind.label) >>= fun order =>
        pass.supplier name default scope input record >>= fun provider =>
          pass.supply scope record provider >>=
            pass.supplied kind elements name scope record content order := fun _ => rfl
  rw [hsequence, hsequence]
  refine congrArg (Script.ofExcept (scope.fieldOrder kind.label) >>= ·) (funext fun order => ?_)
  rw [supplier_bind, supplier_bind]
  generalize input.lookup? name = found at h ⊢
  generalize other.lookup? name = found' at h ⊢
  cases h with
  | none => rfl
  | some hgiven =>
    refine pass.compute_upto hgiven fun given given' hitems => ?_
    obtain ⟨hgiven, hgiven'⟩ := chosen_itemwise hitems
    rw [hgiven, hgiven']
    exact pass.supply_upto (hitems.mono fun _ _ hrelated => hrelated.mono hR) order

/-! ## Trees -/

mutual

/-- **A node does the same with inputs in which it finds the same**, up to the forms of items. -/
theorem walk_reforms (site : Site) (scope : Scope) (input other : Input) (record : Fields Value) :
    ∀ node : Node, node.Reforms input other →
      pass.walk site scope other record node = pass.walk site scope input record node
  | .mk kind name default payload => by
    intro h
    cases kind with
    | order order children =>
      rw [Node.Reforms] at h
      rw [walk, walk, walkAll_reforms _ _ _ _ 0 record children h]
    | group children =>
      rw [Node.Reforms] at h
      rw [walk, walk, walkAll_reforms _ _ _ _ 0 record children h]
    | directory path children =>
      rw [Node.Reforms] at h
      rw [walk, walk, walkAll_reforms _ _ _ _ 0 record children h]
    | file path children =>
      rw [Node.Reforms] at h
      have hcontent : ∀ inner record, pass.walkAll (site.below .child
          (.mk (.file path children) name default payload)) inner (fun _ => other.below path) 0
            record children = pass.walkAll _ inner (fun _ => input.below path) 0 record children :=
        fun inner record => walkAll_reforms _ inner _ _ 0 record children h
      rw [walk, walk]
      simp only [hcontent]
    | select choose =>
      rw [Node.Reforms] at h
      rw [walk, walk]
      exact congrArg (event _ >>= ·) (funext fun _ =>
        walkChosen_reforms _ scope input other record (choose _) (h _))
    | custom codec =>
      change other.lookup? name = input.lookup? name at h
      rw [walk, walk, custom, custom, pass.literal_congr h]
    | text encoding =>
      rw [walk, walk]
    | float kind =>
      change other.lookup? name = input.lookup? name at h
      rw [walk, walk, float, float, pass.resolve_congr h]
    | int kind =>
      cases payload with
      | none =>
        change other.lookup? name = input.lookup? name at h
        rw [walk, walk, int, int, pass.resolve_congr h]
      | text text =>
        change other.lookup? name = input.lookup? name at h
        rw [walk, walk, string, string]
        simp only [pass.resolve_congr h]
      | sequence elements =>
        rw [Node.Reforms] at h
        rw [walk, walk]
        refine pass.sequence_upto h fun item item' hitem inner => ?_
        exact walkAll_reforms _ inner _ _ 0 [] elements (hitem.elim Node.Reform.all id)
termination_by structural node => node

theorem walkChosen_reforms (site : Site) (scope : Scope) (input other : Input)
    (record : Fields Value) : ∀ chosen : Noted Node, Node.ReformsChosen input other chosen →
      pass.walkChosen site scope other record chosen =
        pass.walkChosen site scope input record chosen
  | ⟨node, notes⟩ => by
    intro h
    rw [Node.ReformsChosen] at h
    rw [walkChosen, walkChosen]
    exact congrArg (Script.notes notes >>= ·) (funext fun _ =>
      congrArg (Script.ofExcept _ >>= ·) (funext fun schema =>
        walk_reforms schema.rootSite scope input other record node h))
termination_by structural chosen => chosen

theorem walkAll_reforms (site : Site) (scope : Scope) (inputs others : Nat → Input)
    (index : Nat) (record : Fields Value) : ∀ nodes : List Node,
      Node.ReformsAll inputs others index nodes →
        pass.walkAll site scope others index record nodes =
          pass.walkAll site scope inputs index record nodes
  | [] => by
    intro _
    rw [walkAll, walkAll]
  | node :: rest => by
    intro h
    rw [Node.ReformsAll] at h
    rw [walkAll, walkAll, walk_reforms site scope _ _ record node h.1]
    exact congrArg (_ >>= ·) (funext fun kept => congrArg (· >>= _)
      (walkAll_reforms site scope inputs others (index + 1) kept.2 rest h.2))
termination_by structural nodes => nodes

end

end Pass

end Write

open Write

/-- **Positional and keyed items are written alike.** Let a sequence have at least two elements, all
of them named integers, floats or custom nodes, with whatever payloads, and no two of one name; let
an item be given as a list of at most as many values, or as the record of these values under the
names of the elements. Wherever a pass comes to such a sequence, it goes on in the same way for both
forms. And two passes over any layout whose providers differ in the forms of such items only, in
lists or lazy sequences, at whatever depth, are the same: their files with all bytes, the record
that is kept, the callbacks and what they see, and the error if there is one. -/
theorem Schema.write_reformed (schema : Schema) (options : Options) (opener : SinkOpener) :
    (∀ (pass : Pass) (site : Site) (scope : Scope) (record : Fields Value) (kind : IntKind)
        (name : Option String) (default : Option Value) (elements : List Node)
        (names : List String) (values before after : List Provider) (input other : Input),
      2 ≤ elements.length → (∀ element ∈ elements, element.kind.isField = true) →
      elements.map Node.name = names.map some → names.Nodup → values.length ≤ elements.length →
      input.lookup? name = some (.list (before ++ .list values :: after)) →
      other.lookup? name =
        some (.list (before ++ .record (Fields.ofList (names.zip values)) :: after)) →
      let node := Node.mk (.int kind) name default (.sequence elements)
      pass.walk site scope other record node = pass.walk site scope input record node) ∧
    ∀ provider provider' : Provider, schema.root.Reforms (.within provider) (.within provider') →
      schema.write provider' options opener = schema.write provider options opener := by
  refine ⟨?_, fun provider provider' h => ?_⟩
  · intro pass site scope record kind name default elements names values before after input other
      hseveral hfields hnames hnodup hlength hinput hother node
    refine pass.walk_reforms site scope input other record node ?_
    have hcount : elements.length = names.length := by
      rw [← List.length_map, hnames, List.length_map]
    have hsame : ∀ items : List Provider,
        List.Forall₂ (Provider.Upto fun item item' => Node.Reform elements item item' ∨
          Node.ReformsAll (Pass.itemInput elements.length item)
            (Pass.itemInput elements.length item') 0 elements) items items :=
      fun items => List.forall₂_same.mpr fun item _ => .same item
    have hform : Node.Reform elements (.list values)
        (.record (Fields.ofList (names.zip values))) :=
      ⟨hseveral, hfields, names, values, hnames, hnodup, hcount ▸ hlength, .positional, .keyed⟩
    rw [Node.Reforms, hinput, hother]
    exact .some (.given (.list (List.rel_append (hsame before)
      (.cons (.given (.inl hform) rfl rfl) (hsame after)))) rfl rfl)
  · have hall : Node.ReformsAll (fun _ => .within provider) (fun _ => .within provider') 0
        [schema.root] := ⟨h, trivial⟩
    have hcontent : ∀ (pass : Pass) scope record,
        pass.walkAll schema.rootSite scope (fun _ => .within provider') 0 record [schema.root] =
          pass.walkAll schema.rootSite scope (fun _ => .within provider) 0 record [schema.root] :=
      fun pass scope record => pass.walkAll_reforms _ scope _ _ 0 record _ hall
    have hscript : schema.writeScript provider' options = schema.writeScript provider options := by
      unfold Schema.writeScript
      simp only [hcontent, Pass.walk_reforms _ _ _ _ _ _ _ h]
    unfold Schema.write
    rw [hscript]

/-! ## Pairs -/

/-- Pairs of bytes, of which the second has a default. -/
def pairs : Schema :=
  ⟨.ofKind (.order .big [(byteField "pairs").withSequence
    [byteField "a", (byteField "b").withDefault (.int 9)]]), .root, rfl⟩

/-- A pair, and one that lacks its second byte. -/
def pairsByPosition : Provider :=
  .record [("pairs", .list [.list [.value (.int 1), .value (.int 2)], .list [.value (.int 3)]])]

def pairsByName : Provider :=
  .record [("pairs", .list [.record [("a", .value (.int 1)), ("b", .value (.int 2))],
    .record [("a", .value (.int 3))]])]

theorem Schema.write_reformed_pairs :
    pairs.write pairsByName taggedOptions (fun _ _ => .ok .faultless) =
        pairs.write pairsByPosition taggedOptions (fun _ _ => .ok .faultless) ∧
      (pairs.write pairsByName taggedOptions fun _ _ => .ok .faultless).result =
        .ok [("pairs", .list [.record [("a", .int 1), ("b", .int 2)],
          .record [("a", .int 3), ("b", .int 9)]])] := by
  have hreform : ∀ values : List Provider, values.length ≤ 2 →
      Node.Reform [byteField "a", (byteField "b").withDefault (.int 9)] (.list values)
        (.record (Fields.ofList (["a", "b"].zip values))) := fun values hlength =>
    ⟨Nat.le_refl 2, by simp [byteField, Node.named, Node.withDefault, Node.kind, Kind.isField,
      Node.ofKind], ["a", "b"], values, rfl, by decide, hlength, .positional, .keyed⟩
  have hpairs : pairs.root.Reforms (.within pairsByPosition) (.within pairsByName) := by
    refine ⟨?_, trivial⟩
    exact .some (.given (.list (.cons (.given (.inl (hreform [.value (.int 1), .value (.int 2)]
      (by decide))) rfl rfl) (.cons (.given (.inl (hreform [.value (.int 3)] (by decide))) rfl rfl)
        .nil))) rfl rfl)
  have hwrite := (Schema.write_reformed pairs taggedOptions fun _ _ => .ok .faultless).2 _ _ hpairs
  refine ⟨hwrite, ?_⟩
  rw [hwrite, Schema.write_result SinkOpener.neverFails_faultless,
    Schema.writeScript_single rfl _ splitTarget_out]
  rfl

end ByteLayout
