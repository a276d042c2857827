import ByteLayout.Proofs.Table
import ByteLayout.Proofs.Unfolding

/-!
# Walks by number

An engine with a table at hand need not carry trees around. It looks an entry up by its number, goes
on with the numbers that the entry is linked to, and begins anew at the number 0 in the table of
what a `select` picked. `Pass.visit` is one such look-up with what follows from it, a walk being
given for the numbers it leads to; a number without an entry makes it fail with some error `lost`.

**Theorem (`Pass.IsWalk.follows`).** A walk that looks up every number it is given does what the
walk down the trees does, whatever `lost` is: no look-up fails. And there is such a walk
(`Pass.isWalk_byNumber`).
-/

namespace ByteLayout

namespace Schema

/-- The node with a number, at its site. -/
def occurrenceAt? (schema : Schema) (id : Nat) : Option Occurrence :=
  (schema.root.occurrences schema.rootSite)[id]?

/-- The payload that a slot leads to, if all its numbers have entries. -/
def payloadAt? (schema : Schema) : Slot → Option Payload
  | .none => some .none
  | .text id => (schema.entryAt? id).map fun entry => .text entry.node
  | .sequence ids =>
    (ids.mapM schema.entryAt?).map fun entries => .sequence (entries.map Entry.node)

variable {schema : Schema} {id link : Nat} {above : Occurrence}

theorem occurrenceAt?_zero (schema : Schema) :
    schema.occurrenceAt? 0 = some ⟨schema.rootSite, schema.root⟩ := by
  rw [occurrenceAt?, Node.occurrences_eq]
  rfl

theorem entryAt?_eq_none (h : schema.occurrenceAt? id = none) : schema.entryAt? id = none := by
  have hspot := schema.map_spot_entryAt? id
  rw [← occurrenceAt?, h] at hspot
  exact Option.map_eq_none_iff.mp hspot

/-- What is linked to an entry lies below its node. -/
theorem occurrenceAt?_of_linked {placement : Placement} {node : Node}
    (habove : schema.occurrenceAt? id = some above)
    (hlink : schema.entryAt? link = some (node.entry placement (some id) link)) :
    schema.occurrenceAt? link = some ⟨above.site.below placement above.node, node⟩ := by
  obtain ⟨⟨site, node'⟩, hoccurrence, -, hnode⟩ := occurrence_of_entryAt? hlink
  obtain ⟨-, above', habove', hsite⟩ := occurrence_of_parent hlink rfl hoccurrence
  rw [← occurrenceAt?, habove, Option.some.injEq] at habove'
  obtain rfl : node' = node := hnode
  obtain rfl : site = above.site.below placement above.node := habove' ▸ hsite
  exact hoccurrence

/-- Listed nodes can be looked up all together. -/
theorem mapM_entryAt? {placement : Placement} {ids : List Nat} {nodes : List Node}
    (h : Listed schema.entries placement id ids nodes) :
    ∃ entries, ids.mapM schema.entryAt? = some entries ∧ entries.map Entry.node = nodes := by
  induction h with
  | nil => exact ⟨[], rfl, rfl⟩
  | @cons link node ids nodes hlink _ ih =>
    obtain ⟨entries, hentries, hnodes⟩ := ih
    refine ⟨node.entry placement (some id) link :: entries, ?_, ?_⟩
    · rw [List.mapM_cons, entryAt?, hlink, hentries]
      rfl
    · rw [List.map_cons, hnodes]
      rfl

/-- The numbers in a slot have the entries of the nodes of the payload. -/
theorem payloadAt?_eq {entry : Entry} (h : entry.Stands schema.entries id) :
    schema.payloadAt? entry.payload = some entry.node.payload := by
  have hlisted := h.payload
  have hslot : entry.payload = Node.slot (id + 1) entry.node.payload :=
    congrArg Entry.payload h.eq_entry
  rw [hslot] at hlisted ⊢
  cases hpayload : entry.node.payload with
  | none => rfl
  | text text =>
    rw [hpayload] at hlisted
    obtain ⟨hentry, -⟩ := List.forall₂_cons.mp hlisted
    show (schema.entries[id + 1]?).map _ = _
    rw [hentry]
    rfl
  | sequence elements =>
    rw [hpayload] at hlisted
    obtain ⟨entries, hentries, hnodes⟩ := mapM_entryAt? hlisted
    show Option.map _ (List.mapM _ (Node.slot (id + 1) (.sequence elements)).ids) = _
    rw [hentries, Option.map_some, hnodes]
    rfl

/-- What is linked to an entry is a part of its node. -/
theorem exists_of_mem_links {entry : Entry} (habove : schema.occurrenceAt? id = some above)
    (hentry : schema.entryAt? id = some entry) (hlink : link ∈ entry.links) :
    ∃ site part, schema.occurrenceAt? link = some ⟨site, part⟩ ∧
      (part ∈ above.node.payload.nodes ∨ part ∈ above.node.kind.children) := by
  obtain ⟨entry', hentry', -, hnode⟩ := entryAt?_of_occurrence habove
  rw [hentry, Option.some.injEq] at hentry'
  subst hentry'
  have hstands := schema.nested_entries.stands hentry
  rcases List.mem_append.mp hlink with hlink | hlink
  · obtain ⟨part, hpart, hlinked⟩ := hstands.payload.exists_of_mem hlink
    exact ⟨_, part, occurrenceAt?_of_linked habove hlinked, .inl (hnode ▸ hpart)⟩
  · obtain ⟨part, hpart, hlinked⟩ := hstands.children.exists_of_mem hlink
    exact ⟨_, part, occurrenceAt?_of_linked habove hlinked, .inr (hnode ▸ hpart)⟩

/-- The links of an entry, up and down, lead to entries. -/
theorem exists_of_linked {entry : Entry} (hentry : schema.entryAt? id = some entry)
    (h : link ∈ entry.links ∨ entry.parent = some link) :
    ∃ linked, schema.entryAt? link = some linked := by
  obtain ⟨occurrence, hoccurrence, -⟩ := occurrence_of_entryAt? hentry
  rcases h with hlink | hparent
  · obtain ⟨site, part, hlinked, -⟩ := exists_of_mem_links hoccurrence hentry hlink
    obtain ⟨linked, hfound, -⟩ := entryAt?_of_occurrence hlinked
    exact ⟨linked, hfound⟩
  · obtain ⟨-, above, habove, -⟩ := occurrence_of_parent hentry hparent hoccurrence
    obtain ⟨linked, hfound, -⟩ := entryAt?_of_occurrence habove
    exact ⟨linked, hfound⟩

/-- A node is attached in the place of an entry as it is checked at the site of what replaces it. -/
theorem attach_eq (h : schema.occurrenceAt? id = some above) (node : Node) :
    schema.attach id node = some (attachAt (above.site.ofSelect above.node) node) := by
  obtain ⟨entry, hentry, hplacement, hnode⟩ := entryAt?_of_occurrence h
  rw [attach, hentry, Option.map_some, any_isFile_ancestors hentry h, hplacement, hnode]
  rfl

/-- Induction over the numbers of schemas: what holds of an entry if it holds of those that it is
linked to, and of the roots of all that it may pick, holds of every number. -/
theorem inductNumbers {P : Schema → Nat → Prop} (entry : ∀ schema id,
      (∀ entry, schema.entryAt? id = some entry → ∀ link ∈ entry.links, P schema link) →
      (∀ above, schema.occurrenceAt? id = some above → ∀ choose, above.node.kind = .select choose →
        ∀ context (sub : Schema), sub.root = (choose context).value → P sub 0) → P schema id) :
    ∀ schema id, P schema id := by
  -- by induction on the node at the number: what it is linked to and what it picks are parts of it
  have hnode : ∀ (node : Node) (schema : Schema) (id : Nat) (site : Site),
      schema.occurrenceAt? id = some ⟨site, node⟩ → P schema id := by
    intro node
    induction node using Node.inductChosen with
    | node node hpayload hchildren hchosen =>
    intro schema id site habove
    refine entry schema id ?_ ?_
    · intro entry hentry link hlink
      obtain ⟨below, part, hlinked, hpart⟩ := exists_of_mem_links habove hentry hlink
      exact hpart.elim (fun hpart => hpayload part hpart _ _ below hlinked)
        fun hpart => hchildren part hpart _ _ below hlinked
    · intro above hsame choose hchoose context sub hroot
      rw [habove, Option.some.injEq] at hsame
      subst hsame
      exact hchosen choose hchoose context sub 0 sub.rootSite (hroot ▸ sub.occurrenceAt?_zero)
  intro schema id
  cases habove : schema.occurrenceAt? id with
  | some above => exact hnode above.node schema id above.site habove
  | none =>
    refine entry schema id (fun entry hentry => ?_) (fun above hsome => ?_)
    · rw [entryAt?_eq_none habove] at hentry
      cases hentry
    · rw [habove] at hsome
      cases hsome

end Schema

namespace Write.Pass

variable (pass : Pass) (lost : Error)

/-- A walk by numbers: what is planned for an entry of a schema. -/
abbrev Numbered : Type := Schema → Nat → Scope → Input → Fields Value → Script Kept

/-- Visits entries one after the other, of which the first has the position `index`. -/
def visitAll (walk : Numbered) (schema : Schema) (scope : Scope) (inputs : Nat → Input)
    (index : Nat) (record : Fields Value) : List Nat → Script (List Value × Fields Value)
  | [] => return ([], record)
  | id :: rest => do
    let (value, record) ← walk schema id scope (inputs index) record
    let (values, record) ← visitAll walk schema scope inputs (index + 1) record rest
    return (value :: values, record)

/-- Attaches what the `select` with the number `id` picked, and visits it in its own schema. -/
def visitChosen (walk : Numbered) (schema : Schema) (id : Nat) (scope : Scope) (input : Input)
    (record : Fields Value) (chosen : Noted Node) : Script Kept := do
  .notes chosen.notes
  match schema.attach id chosen.value with
  | none => .fail lost
  | some attached => do
    let sub ← .ofExcept attached
    walk sub 0 scope input record

/-- Visits the entry with a number, a walk being given for the numbers that it leads to. -/
def visit (walk : Numbered) : Numbered := fun schema id scope input record =>
  match schema.entryAt? id with
  | none => .fail lost
  | some entry =>
    match schema.payloadAt? entry.payload with
    | none => .fail lost
    | some payload =>
      pass.layer entry.node payload
        (fun scope inputs record => visitAll walk schema scope inputs 0 record entry.children)
        (fun scope inputs record => visitAll walk schema scope inputs 0 record entry.payload.ids)
        (visitChosen lost walk schema id scope input record) scope input record

/-- Whether a walk visits every number that it is given. -/
def IsWalk (walk : Numbered) : Prop :=
  ∀ schema id scope input record, walk schema id scope input record =
    pass.visit lost walk schema id scope input record

/-- Whether a walk by numbers does at a number what the walk does at the node. -/
def Follows (walk : Numbered) (schema : Schema) (id : Nat) : Prop :=
  ∀ occurrence, schema.occurrenceAt? id = some occurrence → ∀ scope input record,
    walk schema id scope input record =
      pass.walk occurrence.site scope input record occurrence.node

variable {pass} {lost} {walk : Numbered} {schema : Schema} {id : Nat} {above : Occurrence}

theorem visitAll_eq {placement : Placement} {ids : List Nat} {nodes : List Node}
    (habove : schema.occurrenceAt? id = some above)
    (hlisted : Listed schema.entries placement id ids nodes)
    (h : ∀ link ∈ ids, pass.Follows walk schema link) (scope : Scope) (inputs : Nat → Input)
    (index : Nat) (record : Fields Value) :
    visitAll walk schema scope inputs index record ids =
      pass.walkAll (above.site.below placement above.node) scope inputs index record nodes := by
  induction hlisted generalizing index record with
  | nil => rfl
  | cons hlink _ ih =>
    have hrest := ih fun link hmem => h link (List.mem_cons_of_mem _ hmem)
    rw [visitAll, walkAll,
      h _ List.mem_cons_self _ (Schema.occurrenceAt?_of_linked habove hlink)]
    simp only [hrest]

theorem visitChosen_eq (habove : schema.occurrenceAt? id = some above) (chosen : Noted Node)
    (h : ∀ sub : Schema, sub.root = chosen.value → pass.Follows walk sub 0) (scope : Scope)
    (input : Input) (record : Fields Value) :
    visitChosen lost walk schema id scope input record chosen =
      pass.walkChosen (above.site.ofSelect above.node) scope input record chosen := by
  obtain ⟨node, notes⟩ := chosen
  rw [visitChosen, walkChosen, Schema.attach_eq habove]
  cases hattach : Schema.attachAt (above.site.ofSelect above.node) node with
  | error error => rfl
  | ok sub =>
    obtain ⟨hroot, -⟩ := Schema.of_attachAt hattach
    have hsub := h sub hroot _ sub.occurrenceAt?_zero scope input record
    rw [hroot] at hsub
    show (Script.notes notes).bind (fun _ => walk sub 0 scope input record) = _
    rw [hsub]
    rfl

/-- **A visit does what the walk does**, if the walk that is given does so at the numbers to which
the entry leads. -/
theorem visit_eq (habove : schema.occurrenceAt? id = some above)
    (hlinks : ∀ entry, schema.entryAt? id = some entry →
      ∀ link ∈ entry.links, pass.Follows walk schema link)
    (hchosen : ∀ choose, above.node.kind = .select choose → ∀ context (sub : Schema),
      sub.root = (choose context).value → pass.Follows walk sub 0)
    (scope : Scope) (input : Input) (record : Fields Value) :
    pass.visit lost walk schema id scope input record =
      pass.walk above.site scope input record above.node := by
  obtain ⟨entry, hentry, -, hnode⟩ := Schema.entryAt?_of_occurrence habove
  have hstands := schema.nested_entries.stands hentry
  have hchildren := hstands.children
  have hpayload := hstands.payload
  rw [hnode] at hchildren hpayload
  have hbelow := hlinks entry hentry
  -- the entry stands for the node, so that both sides are one layer over the same lists of parts
  rw [walk_eq_layer, visit, hentry]
  dsimp only
  rw [Schema.payloadAt?_eq hstands, hnode]
  dsimp only
  simp only [visitAll_eq habove hchildren
      (fun link hlink => hbelow link (List.mem_append_right _ hlink)),
    visitAll_eq habove hpayload (fun link hlink => hbelow link (List.mem_append_left _ hlink))]
  unfold layer
  cases hkind : above.node.kind with
  | select choose =>
    dsimp only
    rw [visitChosen_eq habove _ (hchosen choose hkind _)]
  | _ => rfl

/-- **A walk that visits every number does what the walk down the trees does.** -/
theorem IsWalk.follows (h : pass.IsWalk lost walk) (schema : Schema) (id : Nat) :
    pass.Follows walk schema id := by
  induction schema, id using Schema.inductNumbers with
  | entry schema id hlinks hchosen =>
  intro occurrence hoccurrence scope input record
  rw [h, visit_eq hoccurrence hlinks (hchosen occurrence hoccurrence)]

/-- The walk down the trees, as one by numbers. -/
def byNumber (lost : Error) : Numbered := fun schema id scope input record =>
  match schema.occurrenceAt? id with
  | none => .fail lost
  | some occurrence => pass.walk occurrence.site scope input record occurrence.node

/-- **There is a walk that visits every number.** -/
theorem isWalk_byNumber (pass : Pass) (lost : Error) : pass.IsWalk lost (pass.byNumber lost) := by
  intro schema id scope input record
  have hfollows : ∀ (schema : Schema) id, pass.Follows (pass.byNumber lost) schema id := by
    intro schema id occurrence hoccurrence scope input record
    rw [byNumber, hoccurrence]
  cases hoccurrence : schema.occurrenceAt? id with
  | none => rw [byNumber, hoccurrence, visit, Schema.entryAt?_eq_none hoccurrence]
  | some occurrence =>
    rw [visit_eq hoccurrence (fun _ _ link _ => hfollows schema link)
      (fun _ _ _ sub _ => hfollows sub 0)]
    exact hfollows schema id occurrence hoccurrence scope input record

end Write.Pass

namespace Read.Pass

variable (pass : Pass) (lost : Error)

/-- A walk by numbers: what is planned for an entry of a schema. -/
abbrev Numbered : Type := Schema → Nat → Scope → Option Transform → Fields Value → Plan Kept

/-- Visits entries one after the other. -/
def visitAll (walk : Numbered) (schema : Schema) (scope : Scope) (transform : Option Transform)
    (record : Fields Value) : List Nat → Plan (List Value × Fields Value)
  | [] => return ([], record)
  | id :: rest => do
    let (value, record) ← walk schema id scope transform record
    let (values, record) ← visitAll walk schema scope transform record rest
    return (value :: values, record)

/-- Attaches what the `select` with the number `id` picked, and visits it in its own schema. -/
def visitChosen (walk : Numbered) (schema : Schema) (id : Nat) (scope : Scope)
    (transform : Option Transform) (record : Fields Value) (chosen : Noted Node) : Plan Kept := do
  .notes chosen.notes
  match schema.attach id chosen.value with
  | none => .fail lost
  | some attached => do
    let sub ← .ofExcept attached
    walk sub 0 scope transform record

/-- Visits the entry with a number, a walk being given for the numbers that it leads to. -/
def visit (walk : Numbered) : Numbered := fun schema id scope transform record =>
  match schema.entryAt? id with
  | none => .fail lost
  | some entry =>
    match schema.payloadAt? entry.payload with
    | none => .fail lost
    | some payload =>
      pass.layer entry.node payload
        (fun scope transform record => visitAll walk schema scope transform record entry.children)
        (fun scope transform record =>
          visitAll walk schema scope transform record entry.payload.ids)
        (visitChosen lost walk schema id scope transform record) scope transform record

/-- Whether a walk visits every number that it is given. -/
def IsWalk (walk : Numbered) : Prop :=
  ∀ schema id scope transform record, walk schema id scope transform record =
    pass.visit lost walk schema id scope transform record

/-- Whether a walk by numbers does at a number what the walk does at the node. -/
def Follows (walk : Numbered) (schema : Schema) (id : Nat) : Prop :=
  ∀ occurrence, schema.occurrenceAt? id = some occurrence → ∀ scope transform record,
    walk schema id scope transform record =
      pass.walk occurrence.site scope transform record occurrence.node

variable {pass} {lost} {walk : Numbered} {schema : Schema} {id : Nat} {above : Occurrence}

theorem visitAll_eq {placement : Placement} {ids : List Nat} {nodes : List Node}
    (habove : schema.occurrenceAt? id = some above)
    (hlisted : Listed schema.entries placement id ids nodes)
    (h : ∀ link ∈ ids, pass.Follows walk schema link) (scope : Scope)
    (transform : Option Transform) (record : Fields Value) :
    visitAll walk schema scope transform record ids =
      pass.walkAll (above.site.below placement above.node) scope transform record nodes := by
  induction hlisted generalizing record with
  | nil => rfl
  | cons hlink _ ih =>
    have hrest := ih fun link hmem => h link (List.mem_cons_of_mem _ hmem)
    rw [visitAll, walkAll,
      h _ List.mem_cons_self _ (Schema.occurrenceAt?_of_linked habove hlink)]
    simp only [hrest]

theorem visitChosen_eq (habove : schema.occurrenceAt? id = some above) (chosen : Noted Node)
    (h : ∀ sub : Schema, sub.root = chosen.value → pass.Follows walk sub 0) (scope : Scope)
    (transform : Option Transform) (record : Fields Value) :
    visitChosen lost walk schema id scope transform record chosen =
      pass.walkChosen (above.site.ofSelect above.node) scope transform record chosen := by
  obtain ⟨node, notes⟩ := chosen
  rw [visitChosen, walkChosen, Schema.attach_eq habove]
  cases hattach : Schema.attachAt (above.site.ofSelect above.node) node with
  | error error => rfl
  | ok sub =>
    obtain ⟨hroot, -⟩ := Schema.of_attachAt hattach
    have hsub := h sub hroot _ sub.occurrenceAt?_zero scope transform record
    rw [hroot] at hsub
    show (Plan.notes notes).bind (fun _ => walk sub 0 scope transform record) = _
    rw [hsub]
    rfl

/-- **A visit does what the walk does**, if the walk that is given does so at the numbers to which
the entry leads. -/
theorem visit_eq (habove : schema.occurrenceAt? id = some above)
    (hlinks : ∀ entry, schema.entryAt? id = some entry →
      ∀ link ∈ entry.links, pass.Follows walk schema link)
    (hchosen : ∀ choose, above.node.kind = .select choose → ∀ context (sub : Schema),
      sub.root = (choose context).value → pass.Follows walk sub 0)
    (scope : Scope) (transform : Option Transform) (record : Fields Value) :
    pass.visit lost walk schema id scope transform record =
      pass.walk above.site scope transform record above.node := by
  obtain ⟨entry, hentry, -, hnode⟩ := Schema.entryAt?_of_occurrence habove
  have hstands := schema.nested_entries.stands hentry
  have hchildren := hstands.children
  have hpayload := hstands.payload
  rw [hnode] at hchildren hpayload
  have hbelow := hlinks entry hentry
  -- the entry stands for the node, so that both sides are one layer over the same lists of parts
  rw [walk_eq_layer, visit, hentry]
  dsimp only
  rw [Schema.payloadAt?_eq hstands, hnode]
  dsimp only
  simp only [visitAll_eq habove hchildren
      (fun link hlink => hbelow link (List.mem_append_right _ hlink)),
    visitAll_eq habove hpayload (fun link hlink => hbelow link (List.mem_append_left _ hlink))]
  unfold layer
  cases hkind : above.node.kind with
  | select choose =>
    dsimp only
    rw [visitChosen_eq habove _ (hchosen choose hkind _)]
  | _ => rfl

/-- **A walk that visits every number does what the walk down the trees does.** -/
theorem IsWalk.follows (h : pass.IsWalk lost walk) (schema : Schema) (id : Nat) :
    pass.Follows walk schema id := by
  induction schema, id using Schema.inductNumbers with
  | entry schema id hlinks hchosen =>
  intro occurrence hoccurrence scope transform record
  rw [h, visit_eq hoccurrence hlinks (hchosen occurrence hoccurrence)]

/-- The walk down the trees, as one by numbers. -/
def byNumber (lost : Error) : Numbered := fun schema id scope transform record =>
  match schema.occurrenceAt? id with
  | none => .fail lost
  | some occurrence => pass.walk occurrence.site scope transform record occurrence.node

/-- **There is a walk that visits every number.** -/
theorem isWalk_byNumber (pass : Pass) (lost : Error) : pass.IsWalk lost (pass.byNumber lost) := by
  intro schema id scope transform record
  have hfollows : ∀ (schema : Schema) id, pass.Follows (pass.byNumber lost) schema id := by
    intro schema id occurrence hoccurrence scope transform record
    rw [byNumber, hoccurrence]
  cases hoccurrence : schema.occurrenceAt? id with
  | none => rw [byNumber, hoccurrence, visit, Schema.entryAt?_eq_none hoccurrence]
  | some occurrence =>
    rw [visit_eq hoccurrence (fun _ _ link _ => hfollows schema link)
      (fun _ _ _ sub _ => hfollows sub 0)]
    exact hfollows schema id occurrence hoccurrence scope transform record

end Read.Pass

/-! ## Whole passes -/

namespace Schema

variable (schema : Schema) (options : Options)

/-- What all nodes of a write pass share. -/
def writePass : Write.Pass := { user := options.user, nest := 1 < schema.fileCount }

/-- The script of a write pass that walks by number. -/
def writeScriptBy (walk : Write.Pass.Numbered) (provider : Provider) :
    Write.Script (Fields Value) :=
  let pass := schema.writePass options
  if schema.fileCount = 0 then do
    let (dir, name) ← .ofExcept (splitTarget options.path)
    .event (.trace (.singleFile .write options.path))
    pass.inFile name (.base dir) [] fun scope record =>
      Write.Pass.visitAll walk schema scope (fun _ => .within provider) 0 record [0]
  else do
    let (_, record) ← walk schema 0 (.base options.path) (.within provider) []
    return record

theorem writeScriptBy_eq {walk : Write.Pass.Numbered}
    (h : (schema.writePass options).Follows walk schema 0) (provider : Provider) :
    schema.writeScriptBy options walk provider = schema.writeScript provider options := by
  have hroot : ∀ scope input record, walk schema 0 scope input record =
      (schema.writePass options).walk schema.rootSite scope input record schema.root :=
    h _ schema.occurrenceAt?_zero
  unfold writeScriptBy writeScript
  simp only [hroot, Write.Pass.visitAll, Write.Pass.walkAll]
  rfl

/-- What all nodes of a read pass share. -/
def readPass : Read.Pass := { user := options.user, nest := 1 < schema.fileCount }

/-- The plan of a read pass that walks by number. -/
def readPlanBy (walk : Read.Pass.Numbered) (transform : Option Transform) :
    Read.Plan (Fields Value) :=
  let pass := schema.readPass options
  if schema.fileCount = 0 then do
    let (dir, name) ← .ofExcept (splitTarget options.path)
    .event (.trace (.singleFile .read options.path))
    pass.inFile name (.base dir) [] fun scope record =>
      Read.Pass.visitAll walk schema scope transform record [0]
  else do
    let (_, record) ← walk schema 0 (.base options.path) transform []
    return record

theorem readPlanBy_eq {walk : Read.Pass.Numbered}
    (h : (schema.readPass options).Follows walk schema 0) (transform : Option Transform) :
    schema.readPlanBy options walk transform = schema.readPlan transform options := by
  have hroot : ∀ scope transform record, walk schema 0 scope transform record =
      (schema.readPass options).walk schema.rootSite scope transform record schema.root :=
    h _ schema.occurrenceAt?_zero
  unfold readPlanBy readPlan
  simp only [hroot, Read.Pass.visitAll, Read.Pass.walkAll]
  rfl

end Schema

end ByteLayout
