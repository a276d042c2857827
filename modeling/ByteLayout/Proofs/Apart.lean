import ByteLayout.Proofs.Turns

/-!
# Items apart

An item of a sequence starts with an empty record, and its scope is derived from that of the
sequence. So what an item does depends on what is given for it and on the place of the sequence, and
on nothing else: not on the other items, not on the record around the sequence, not on the layout
around it. Two scripts **concur** if, once both end well, they have the same result and the same
steps.

**Step (`walk_concurs`).** In scopes that are alike the scripts of a tree concur, whatever layouts
and files they belong to.

**Theorem (`Schema.items_apart`).** An item that is completed in two passes has the same bytes and
the same value in both; and a list is written as the number of its items, followed by their bytes.
-/

namespace ByteLayout

/-- Scopes in files that callbacks cannot tell apart. -/
structure Scope.Alike (scope other : Scope) : Prop where
  order : other.order = scope.order
  trail : other.trail = scope.trail
  index : other.index = scope.index
  inFile : scope.file.isSome = true
  inFile' : other.file.isSome = true

namespace Scope.Alike

variable {scope other : Scope}

theorem withOrder (h : scope.Alike other) (order : ByteOrder) :
    (scope.withOrder order).Alike (other.withOrder order) :=
  ⟨rfl, h.trail, h.index, h.inFile, h.inFile'⟩

theorem field (h : scope.Alike other) (segment : String) :
    (scope.field segment).Alike (other.field segment) :=
  ⟨h.order, congrArg (· ++ "/" ++ segment) h.trail, h.index, h.inFile, h.inFile'⟩

theorem item (h : scope.Alike other) (index : Nat) :
    (scope.item index).Alike (other.item index) :=
  ⟨h.order, congrArg (· ++ "/[" ++ toString index ++ "]") h.trail, rfl, h.inFile, h.inFile'⟩

theorem enterDir (h : scope.Alike other) (relative : String) :
    (scope.enterDir relative).Alike (other.enterDir relative) := by
  refine ⟨h.order, ?_, h.index, h.inFile, h.inFile'⟩
  obtain ⟨file, hfile⟩ := Option.isSome_iff_exists.mp h.inFile
  obtain ⟨file', hfile'⟩ := Option.isSome_iff_exists.mp h.inFile'
  unfold Scope.enterDir
  rw [hfile, hfile', h.trail]

/-- What sees no more of a scope than callbacks do is the same in both. -/
theorem congr {β : Type} (F : Write.Pass → Scope → β) (hF : ∀ (user : Value) (nest nest' : Bool)
      (order : Option ByteOrder) (trail dir dir' path path' : String) (index : Option Nat),
      F ⟨user, nest'⟩ ⟨order, trail, dir', some path', index⟩ =
        F ⟨user, nest⟩ ⟨order, trail, dir, some path, index⟩)
    {pass pass' : Write.Pass} (huser : pass'.user = pass.user) (h : scope.Alike other) :
    F pass' other = F pass scope := by
  obtain ⟨user, nest⟩ := pass
  obtain ⟨user', nest'⟩ := pass'
  obtain ⟨order, trail, dir, file, index⟩ := scope
  obtain ⟨order', trail', dir', file', index'⟩ := other
  obtain ⟨rfl, rfl, rfl, hfile, hfile'⟩ := h
  obtain rfl : user' = user := huser
  obtain ⟨path, rfl⟩ := Option.isSome_iff_exists.mp hfile
  obtain ⟨path', rfl⟩ := Option.isSome_iff_exists.mp hfile'
  exact hF _ _ _ _ _ _ _ _ _ _

end Scope.Alike

namespace Write

/-! ## Scripts that concur -/

namespace Script

variable {α β : Type} {script other : Script α}

/-- Whether two scripts, if both end well, have the same result and the same steps. -/
def Concurs (script other : Script α) : Prop :=
  ∀ a b, script.outcome = .ok a → other.outcome = .ok b → b = a ∧ other.steps = script.steps

theorem concurs_of_eq (h : other = script) : script.Concurs other := by
  subst h
  exact fun a b ha hb => ⟨Except.ok.inj (hb.symm.trans ha), rfl⟩

theorem concurs_of_error {error : Error} (h : script.outcome = .error error) :
    script.Concurs other := by
  intro a b ha
  rw [h] at ha
  cases ha

theorem Concurs.bind {f g : α → Script β} (h : script.Concurs other)
    (hf : ∀ a, (f a).Concurs (g a)) : (script >>= f).Concurs (other >>= g) := by
  intro b b' hb hb'
  obtain ⟨a, ha, hb⟩ := outcome_bind_eq_ok.mp hb
  obtain ⟨a', ha', hb'⟩ := outcome_bind_eq_ok.mp hb'
  obtain ⟨rfl, hsteps⟩ := h a a' ha ha'
  obtain ⟨hresult, hrest⟩ := hf a' b b' hb hb'
  rw [steps_bind_of_ok ha, steps_bind_of_ok ha', hsteps, hrest]
  exact ⟨hresult, rfl⟩

theorem Concurs.map (h : script.Concurs other) (f : α → β) :
    (script >>= fun a => Pure.pure (f a)).Concurs (other >>= fun a => Pure.pure (f a)) :=
  h.bind fun _ => concurs_of_eq rfl

theorem Concurs.collectFrom {item item' : Nat → Script α}
    (h : ∀ index, (item index).Concurs (item' index)) : ∀ count index results,
      (collectFrom item count index results).Concurs (collectFrom item' count index results)
  | 0, _, _ => concurs_of_eq rfl
  | count + 1, index, results =>
    (h index).bind fun a => Concurs.collectFrom h count (index + 1) (a :: results)

end Script

namespace Pass

open Script

variable {pass pass' : Pass}

/-! ## Items -/

/-- An item sees its own scope, and of that of its sequence the path only. -/
theorem writeItem_concurs (huser : pass'.user = pass.user) {elements : List Node}
    {scope scope' : Scope} {supply supply' : Supply}
    {content content' : Scope → Provider → Script (List Value × Fields Value)} {index : Nat}
    (htrail : scope'.trail = scope.trail) (hitem : (scope.item index).Alike (scope'.item index))
    (hsupply : supply'.item index = supply.item index) (hlazy : supply'.isLazy = supply.isLazy)
    (hcontent : ∀ item,
      (content (scope.item index) item).Concurs (content' (scope'.item index) item)) :
    (pass.writeItem elements scope supply content index).Concurs
      (pass'.writeItem elements scope' supply' content' index) := by
  have hpull : pass'.pull scope' supply' index = pass.pull scope supply index := by
    have hcompute := hitem.congr (fun pass scope => pass.compute scope [] (supply.item index).value)
      (fun _ _ _ _ _ _ _ _ _ _ => by cases (supply.item index).value <;> rfl) huser
    unfold pull
    dsimp only
    rw [hsupply, hlazy, htrail, hcompute]
  refine Concurs.bind (concurs_of_eq hpull) fun item => (hcontent item).bind fun walked => ?_
  exact Concurs.map (concurs_of_eq (congrArg (fun trail => event (.itemDone trail index)) htrail)) _

/-! ## Trees -/

/-- Within a file no file ends well. -/
theorem inFile_concurs {scope scope' : Scope} (h : scope.file.isSome = true) (relative : String)
    (record : Fields Value)
    {content content' : Scope → Fields Value → Script (List Value × Fields Value)} :
    (pass.inFile relative scope record content).Concurs
      (pass'.inFile relative scope' record content') := by
  have hrefused : (pass.inFile relative scope record content).outcome = _ :=
    (outcome_bind _ _).trans (congrArg (Except.bind · _) (Scope.enterFile_refused h relative))
  exact concurs_of_error hrefused

mutual

/-- **In scopes that are alike the scripts of a tree concur.** -/
theorem walk_concurs (huser : pass'.user = pass.user) (site site' : Site)
    {scope scope' : Scope} (h : scope.Alike scope') (input : Input)
    (record : Fields Value) : ∀ node : Node,
      (pass.walk site scope input record node).Concurs (pass'.walk site' scope' input record node)
  | .mk kind name default payload => by
    have hfield := h.field (Node.label (.mk kind name default payload))
    cases kind with
    | order order children =>
      rw [walk, walk]
      exact (walkAll_concurs huser _ _ (h.withOrder order) _ 0 record children).map _
    | group children =>
      rw [walk, walk]
      exact (walkAll_concurs huser _ _ h _ 0 record children).map _
    | directory path children =>
      rw [walk, walk]
      exact (walkAll_concurs huser _ _ (h.enterDir path) _ 0 record children).map _
    | file path children =>
      rw [walk, walk]
      exact (inFile_concurs h.inFile path record).map _
    | select choose =>
      rw [walk, walk, h.congr (fun pass scope => scope.context pass.user record)
        (fun _ _ _ _ _ _ _ _ _ _ => rfl) huser]
      exact (concurs_of_eq rfl).bind fun _ => walkChosen_concurs huser _ _ h input record
        (choose (scope.context pass.user record))
    | custom codec =>
      rw [walk, walk]
      exact concurs_of_eq (hfield.congr (fun pass scope => pass.custom codec _ name default scope
        input record) (fun _ _ _ _ _ _ _ _ _ _ => rfl) huser)
    | text encoding =>
      rw [walk, walk]
      exact concurs_of_error rfl
    | float kind =>
      rw [walk, walk]
      exact concurs_of_eq (hfield.congr (fun pass scope => pass.float kind name default scope
        input record) (fun _ _ _ _ _ _ _ _ _ _ => rfl) huser)
    | int kind =>
      cases payload with
      | none =>
        rw [walk, walk]
        exact concurs_of_eq (hfield.congr (fun pass scope => pass.int kind name default scope
          input record) (fun _ _ _ _ _ _ _ _ _ _ => rfl) huser)
      | text text =>
        rw [walk, walk]
        exact concurs_of_eq (hfield.congr (fun pass scope => pass.string kind text name default
          scope input record) (fun _ _ _ _ _ _ _ _ _ _ => rfl) huser)
      | sequence elements =>
        rw [walk, walk, sequence_eq, sequence_eq]
        refine Concurs.bind (concurs_of_eq (hfield.congr (fun pass scope => pass.opening kind name
          default scope input record) (fun _ _ _ _ _ _ _ _ _ _ => rfl) huser)) fun supply => ?_
        refine Concurs.map (Concurs.collectFrom (fun index => ?_) _ 0 []) _
        exact writeItem_concurs huser hfield.trail (hfield.item index) rfl rfl fun item =>
          walkAll_concurs huser _ _ (hfield.item index) _ 0 [] elements
termination_by structural node => node

theorem walkChosen_concurs (huser : pass'.user = pass.user) (site site' : Site)
    {scope scope' : Scope} (h : scope.Alike scope') (input : Input)
    (record : Fields Value) : ∀ chosen : Noted Node,
      (pass.walkChosen site scope input record chosen).Concurs
        (pass'.walkChosen site' scope' input record chosen)
  | ⟨node, notes⟩ => by
    rw [walkChosen, walkChosen]
    refine (concurs_of_eq rfl).bind fun _ => ?_
    intro a b ha hb
    obtain ⟨schema, hschema, ha⟩ := outcome_bind_eq_ok.mp ha
    obtain ⟨schema', hschema', hb⟩ := outcome_bind_eq_ok.mp hb
    rw [steps_bind_of_ok hschema, steps_bind_of_ok hschema', steps_ofExcept, steps_ofExcept]
    exact walk_concurs huser schema.rootSite schema'.rootSite h input record node a b ha hb
termination_by structural chosen => chosen

theorem walkAll_concurs (huser : pass'.user = pass.user) (site site' : Site)
    {scope scope' : Scope} (h : scope.Alike scope') (inputs : Nat → Input)
    (index : Nat) (record : Fields Value) : ∀ nodes : List Node,
      (pass.walkAll site scope inputs index record nodes).Concurs
        (pass'.walkAll site' scope' inputs index record nodes)
  | [] => by
    rw [walkAll, walkAll]
    exact concurs_of_eq rfl
  | node :: rest => by
    rw [walkAll, walkAll]
    exact (walk_concurs huser site site' h (inputs index) record node).bind fun kept =>
      (walkAll_concurs huser site site' h inputs (index + 1) kept.2 rest).map _
termination_by structural nodes => nodes

end

end Pass

/-! ## Lists -/

/-- A sequence that a pass comes to and that a list is given for. -/
structure Listing (pass : Pass) extends Visit where
  kind : IntKind
  name : Option String
  default : Option Value
  elements : List Node
  items : List Provider
  node_eq : node = .mk (.int kind) name default (.sequence elements)
  given : (pass.supplier name default (scope.field node.label) input record).outcome =
    .ok (.list items)

namespace Listing

variable {pass : Pass} (listing : Listing pass)

/-- The scope of the sequence. -/
def here : Scope := listing.scope.field listing.node.label

/-- What is written ahead of the items. -/
def opening : Script Pass.Supply :=
  pass.opening listing.kind listing.name listing.default listing.here listing.input listing.record

def item (index : Nat) : Script Value :=
  pass.itemOf listing.elements listing.toVisit (.ofList listing.items) index

/-- Where the sequence is visited at a stage, an item is completed with a value and bytes. -/
def Completes (setup : Setup) (stage : Stage) (index : Nat) (value : Value)
    (bytes : List UInt8) : Prop :=
  ∃ begun before after values,
    stage.playAll setup listing.opening = (begun, .ok (.ofList listing.items)) ∧
      begun.playAll setup (.collect index listing.item) = (before, .ok values) ∧
      before.playAll setup (listing.item index) = (after, .ok value) ∧
      after.accepted = before.accepted ++ bytes

theorem scriptAt_eq : pass.scriptAt listing.toVisit =
    listing.opening >>= fun supply =>
      .collect supply.length (pass.itemOf listing.elements listing.toVisit supply) >>= fun items =>
        Pure.pure (keep listing.name listing.record (.list items)) :=
  pass.scriptAt_sequence listing.kind listing.elements listing.name listing.default
    listing.node_eq

/-- What a list declares is how many items it has. -/
theorem opening_eq_ok {supply : Pass.Supply} (h : listing.opening.outcome = .ok supply) :
    supply = .ofList listing.items ∧ ∃ order,
      listing.here.fieldOrder listing.kind.label = .ok order ∧
      listing.kind.Holds listing.items.length ∧
      Step.content [] listing.opening.steps =
        listing.kind.encode order listing.items.length := by
  obtain ⟨order, provider, n, horder, hprovider, hsupply, hn, hcontent⟩ := Pass.content_opening h
  obtain rfl := Except.ok.inj (hprovider.symm.trans listing.given)
  obtain rfl := Except.ok.inj hsupply
  obtain ⟨hinteger, hholds⟩ := Pass.countOf_eq_ok hn
  obtain rfl : (listing.items.length : Int) = n := Except.ok.inj hinteger
  exact ⟨rfl, order, horder, hholds, hcontent⟩

variable {listing} {schema : Schema} {provider : Provider} {options : Options}
  {opener : SinkOpener} {stage : Stage}

/-- **What a visit begins is in a file.** -/
theorem opened (hvisit : schema.Visits provider options opener stage pass listing.toVisit)
    {begun : Stage} {supply : Pass.Supply}
    (hplay : stage.playAll (options.setup opener) listing.opening = (begun, .ok supply)) :
    listing.opening.outcome = .ok supply ∧ listing.scope.file.isSome = true ∧
      (∃ lives offers, begun.Serves true lives offers) ∧
      begun.accepted = stage.accepted ++ Step.content [] listing.opening.steps := by
  obtain ⟨inFile, lives, offers, last, hserves, hlast⟩ := hvisit.serves
  rw [listing.scriptAt_eq] at hlast
  obtain ⟨hok, hbegun, haccepted⟩ :=
    hserves.opening (options.capacity_setup opener) hlast hplay
  obtain ⟨-, order, horder, -⟩ := listing.opening_eq_ok hok
  have hfile : listing.here.file.isSome = true := Scope.isSome_file_of_fieldOrder horder
  exact ⟨hok, hfile, hbegun, haccepted⟩

/-- What is completed has the result of its script, and the bytes that its script writes. -/
theorem Completes.eq (hvisit : schema.Visits provider options opener stage pass listing.toVisit)
    {index : Nat} {value : Value} {bytes : List UInt8}
    (h : listing.Completes (options.setup opener) stage index value bytes) :
    listing.scope.file.isSome = true ∧ (listing.item index).outcome = .ok value ∧
      bytes = Step.content [] (listing.item index).steps := by
  obtain ⟨begun, before, after, values, hopening, hearlier, hitem, hbytes⟩ := h
  obtain ⟨-, hfile, ⟨lives, offers, hbegun⟩, -⟩ := opened hvisit hopening
  have hcapacity := options.capacity_setup opener
  obtain ⟨⟨lives', offers', hbefore⟩, -⟩ := hbegun.allItems hcapacity hfile hearlier
  obtain ⟨hok, haccepted⟩ := hbefore.oneItem hcapacity hfile hitem
  exact ⟨hfile, hok, List.append_cancel_left (hbytes.symm.trans haccepted)⟩

/-- **A list is written as the number of its items, and then its items.** -/
theorem written (hvisit : schema.Visits provider options opener stage pass listing.toVisit)
    {last : Stage} {kept : Kept} (hplay : stage.playAll (options.setup opener)
      (pass.scriptAt listing.toVisit) = (last, .ok kept)) :
    ∃ order values chunks, listing.here.fieldOrder listing.kind.label = .ok order ∧
      listing.kind.Holds listing.items.length ∧
      values.length = listing.items.length ∧ chunks.length = listing.items.length ∧
      kept = keep listing.name listing.record (.list values) ∧
      last.accepted = stage.accepted ++
        (listing.kind.encode order listing.items.length ++ List.flatten chunks) ∧
      ∀ index value bytes, values[index]? = some value → chunks[index]? = some bytes →
        listing.Completes (options.setup opener) stage index value bytes := by
  rw [listing.scriptAt_eq] at hplay
  obtain ⟨begun, supply, hopening, hplay⟩ := Stage.playAll_bind_eq_ok.mp hplay
  obtain ⟨hok, hfile, ⟨lives, offers, hbegun⟩, hcount⟩ := opened hvisit hopening
  obtain ⟨rfl, order, horder, hholds, hcontent⟩ := listing.opening_eq_ok hok
  obtain ⟨later, values, hitems, hplay⟩ := Stage.playAll_bind_eq_ok.mp hplay
  obtain ⟨rfl, hkept⟩ := Prod.mk.inj hplay
  have hcapacity := options.capacity_setup opener
  obtain ⟨-, haccepted⟩ := hbegun.allItems hcapacity hfile hitems
  obtain ⟨hlength, hevery⟩ := Stage.playAll_collect_eq_ok hitems
  let bytesOf := fun index => Step.content [] (listing.item index).steps
  refine ⟨order, values, (List.range listing.items.length).map bytesOf, horder, hholds, hlength,
    by rw [List.length_map, List.length_range], (Except.ok.inj hkept).symm, ?_, ?_⟩
  · rw [haccepted, hcount, hcontent, List.append_assoc, ← List.flatMap_def]
    rfl
  · intro index value bytes hvalue hbytes
    obtain ⟨before, after, hearlier, hitem⟩ := hevery index value hvalue
    obtain ⟨⟨lives', offers', hbefore⟩, -⟩ := hbegun.allItems hcapacity hfile hearlier
    obtain ⟨-, hgrowth⟩ := hbefore.oneItem hcapacity hfile hitem
    have hindex : index < listing.items.length :=
      Nat.lt_of_lt_of_eq (List.getElem?_eq_some_iff.mp hvalue).1 hlength
    obtain rfl : bytesOf index = bytes := by
      rw [List.getElem?_map, List.getElem?_range hindex] at hbytes
      exact Option.some.inj hbytes
    exact ⟨begun, before, after, values.take index, hopening, hearlier, hitem, hgrowth⟩

/-- Items for which the same is given, in sequences at the same place, concur. -/
theorem item_concurs {pass' : Pass} {other : Listing pass'} (hnode : other.node = listing.node)
    (huser : pass'.user = pass.user) (htrail : other.scope.trail = listing.scope.trail)
    (horder : other.scope.order = listing.scope.order)
    (hfile : listing.scope.file.isSome = true) (hfile' : other.scope.file.isSome = true)
    {index : Nat} {item : Provider} (hitem : listing.items[index]? = some item)
    (hitem' : other.items[index]? = some item) :
    (listing.item index).Concurs (other.item index) := by
  have helements : other.elements = listing.elements := by
    have heq := other.node_eq.symm.trans (hnode.trans listing.node_eq)
    simp only [Node.mk.injEq, Payload.sequence.injEq] at heq
    exact heq.2.2.2
  have hsame : (other.scope.field other.node.label).trail = listing.here.trail := by
    rw [hnode]
    exact congrArg (· ++ "/" ++ listing.node.label) htrail
  have halike : (listing.here.item index).Alike
      ((other.scope.field other.node.label).item index) :=
    ⟨horder, congrArg (· ++ "/[" ++ toString index ++ "]") hsame, rfl, hfile, hfile'⟩
  have hsupply : ∀ {items : List Provider}, items[index]? = some item →
      (Pass.Supply.ofList items).item index = ⟨item, []⟩ := by
    intro items hitem
    rw [Pass.Supply.item_ofList, hitem]
    rfl
  unfold Listing.item Pass.itemOf
  rw [helements]
  exact Pass.writeItem_concurs huser hsame halike ((hsupply hitem').trans (hsupply hitem).symm) rfl
    fun given => Pass.walkAll_concurs huser _ _ halike _ 0 [] listing.elements

end Listing

end Write

open Write

/-- **A sequence is its count, followed by items that are independent of one another.** Let two
passes, over any layouts and with any sinks, come to a sequence at the same path, in the same byte
order and with the same value of the user, and let lists be given for it. An item that is given
alike in both and is completed in both has the same value and the same bytes, whatever the other
items and the records around the sequence are. If the sequence is written to its end, its bytes are
those of the number of the items, followed by those of the items, and its value lists theirs. -/
theorem Schema.items_apart {schema schema' : Schema} {provider provider' : Provider}
    {options options' : Options} {opener opener' : SinkOpener} {stage stage' : Stage}
    {pass pass' : Pass} (listing : Listing pass) (other : Listing pass')
    (hvisit : schema.Visits provider options opener stage pass listing.toVisit)
    (hvisit' : schema'.Visits provider' options' opener' stage' pass' other.toVisit)
    (hnode : other.node = listing.node) (huser : pass'.user = pass.user)
    (htrail : other.scope.trail = listing.scope.trail)
    (horder : other.scope.order = listing.scope.order) :
    (∀ index item, listing.items[index]? = some item → other.items[index]? = some item →
      ∀ value value' bytes bytes',
        listing.Completes (options.setup opener) stage index value bytes →
        other.Completes (options'.setup opener') stage' index value' bytes' →
        value' = value ∧ bytes' = bytes) ∧
    ∀ last kept,
      stage.playAll (options.setup opener) (pass.scriptAt listing.toVisit) = (last, .ok kept) →
      ∃ order values chunks, listing.here.fieldOrder listing.kind.label = .ok order ∧
        listing.kind.Holds listing.items.length ∧
        values.length = listing.items.length ∧ chunks.length = listing.items.length ∧
        kept = keep listing.name listing.record (.list values) ∧
        last.accepted = stage.accepted ++
          (listing.kind.encode order listing.items.length ++ List.flatten chunks) ∧
        ∀ index value bytes, values[index]? = some value → chunks[index]? = some bytes →
          listing.Completes (options.setup opener) stage index value bytes := by
  refine ⟨fun index item hitem hitem' value value' bytes bytes' hdone hdone' => ?_,
    fun last kept hplay => Listing.written hvisit hplay⟩
  obtain ⟨hfile, hvalue, rfl⟩ := hdone.eq hvisit
  obtain ⟨hfile', hvalue', rfl⟩ := hdone'.eq hvisit'
  obtain ⟨rfl, hsteps⟩ := Listing.item_concurs hnode huser htrail horder hfile hfile' hitem hitem'
    value value' hvalue hvalue'
  rw [hsteps]
  exact ⟨rfl, rfl⟩

/-! ## Two tables with a cell in common -/

namespace Schema

/-- Cells in a column. -/
def columnListing (items : List Provider) : Listing ⟨.null, false⟩ :=
  { columnVisit (.list items) with
    kind := .u8
    name := "cells"
    default := none
    elements := [.ofKind (.int .u8)]
    items
    node_eq := rfl
    given := rfl }

/-- Cells behind a tag. -/
def rowListing (items : List Provider) : Listing ⟨.null, false⟩ :=
  { rowVisit with
    input := .within (.record [("tag", .value (.int 1)), ("cells", .list items)])
    kind := .u8
    name := "cells"
    default := none
    elements := [.ofKind (.int .u8)]
    items
    node_eq := rfl
    given := rfl }

theorem row_visits (items : List Provider) : ∃ stage : Stage, stage.Sound true ∧
    row.Visits (.record [("tag", .value (.int 1)), ("cells", .list items)]) taggedOptions
      (fun _ _ => .ok .faultless) stage ⟨.null, false⟩ (rowListing items).toVisit := by
  obtain ⟨later, hplay, hsound, -⟩ := Stage.playAll_sound
    (Schema.sound_setup SinkOpener.neverFails_faultless taggedOptions)
    (Pass.walk ⟨.null, false⟩ (row.rootSite.below .child row.root)
      ((Scope.single ("", "out")).withOrder .big)
      (.within (.record [("tag", .value (.int 1)), ("cells", .list items)])) [] (byteField "tag"))
    columnStage_sound rfl
  refine ⟨later, hsound, Stage.Reaches.trans ?_ (root_reached rfl _)⟩
  show Stage.Reaches _ _ _ _
    (Pass.walk _ _ _ _ _ (.mk (.order .big [byteField "tag", .ofKind (.group [cells])]) _ _ _))
  rw [Pass.walk]
  refine .first _ ?_
  show Stage.Reaches _ _ _ _
    (Pass.walkAll _ _ _ _ _ _ [byteField "tag", .ofKind (.group [cells])])
  rw [Pass.walkAll]
  refine .next hplay (.first _ ?_)
  show Stage.Reaches _ _ _ _ (Pass.walkAll _ _ _ _ _ _ [.ofKind (.group [cells])])
  rw [Pass.walkAll]
  refine .first _ ?_
  show Stage.Reaches _ _ _ _ (Pass.walk _ _ _ _ _ (.mk (.group [cells]) _ _ _))
  rw [Pass.walk]
  refine .first _ ?_
  show Stage.Reaches _ _ _ _ (Pass.walkAll _ _ _ _ _ _ [cells])
  rw [Pass.walkAll]
  exact .first _ .here

theorem items_apart_tables :
    ∃ stage value bytes,
      (columnListing [.value (.int 7), .value (.int 8)]).Completes
        (taggedOptions.setup fun _ _ => .ok .faultless) columnStage 0 value bytes ∧
      (rowListing [.value (.int 7), .value (.int 9), .value (.int 10)]).Completes
        (taggedOptions.setup fun _ _ => .ok .faultless) stage 0 value bytes := by
  have hsetup := Schema.sound_setup SinkOpener.neverFails_faultless taggedOptions
  let column := columnListing [.value (.int 7), .value (.int 8)]
  let row := rowListing [.value (.int 7), .value (.int 9), .value (.int 10)]
  have hcolumn := column_visits (.list column.items)
  obtain ⟨stage, hsound, hrow⟩ := row_visits row.items
  obtain ⟨last, hplay, -⟩ := Stage.playAll_sound hsetup
    (Pass.scriptAt ⟨.null, false⟩ column.toVisit) columnStage_sound rfl
  obtain ⟨last', hplay', -⟩ := Stage.playAll_sound hsetup
    (Pass.scriptAt ⟨.null, false⟩ row.toVisit) hsound rfl
  obtain ⟨happart, hwritten⟩ := items_apart column row hcolumn hrow rfl rfl rfl rfl
  obtain ⟨-, values, chunks, -, -, hvalues, hchunks, -, -, hall⟩ := hwritten last _ hplay
  obtain ⟨-, values', chunks', -, -, hvalues', hchunks', -, -, hall'⟩ :=
    (items_apart row row hrow hrow rfl rfl rfl rfl).2 last' _ hplay'
  have hdone := hall 0 _ _ (List.getElem?_eq_getElem (by rw [hvalues]; decide))
    (List.getElem?_eq_getElem (by rw [hchunks]; decide))
  have hdone' := hall' 0 _ _ (List.getElem?_eq_getElem (by rw [hvalues']; decide))
    (List.getElem?_eq_getElem (by rw [hchunks']; decide))
  obtain ⟨hvalue, hbytes⟩ := happart 0 (.value (.int 7)) rfl rfl _ _ _ _ hdone hdone'
  rw [hvalue, hbytes] at hdone'
  exact ⟨stage, _, _, hdone, hdone'⟩

end Schema

end ByteLayout
