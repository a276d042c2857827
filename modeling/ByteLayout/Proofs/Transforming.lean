import ByteLayout.Proofs.Discretion
import ByteLayout.Proofs.Items
import ByteLayout.Proofs.LastVisit

/-!
# What a transform makes of a record

A transform and the layout are gone through together, and what the transform makes of a record is
said here without the pass (`Node.rewritten`), for every value by the field it belongs to. A
function under the name of a field changes its value, or each item if it is a sequence; entries
under the name of a sequence change the fields of those items that are records, in the same way. A
directory stands between: what lies in it is rewritten by what the transform has under its path.
Nothing else is changed: not a field without name, nor what lies in a sequence without name, nor a
scalar for which there are entries, nor anything by a function at the root.

**Step** (`Pass.walk_follows`). With a transform whose functions depend on the value only, a node
goes in lockstep with itself without it, and keeps the changed value.

**Theorem (`Schema.read_rewritten`).** The record that is read with a transform is the record that
is read without it, rewritten; and the sources see no difference.
-/

namespace ByteLayout

/-! ## Changed records -/

namespace Fields

/-- The record with all its values changed, given their names. -/
def mapEntries (change : String → Value → Value) (record : Fields Value) : Fields Value :=
  record.map fun entry => (entry.1, change entry.1 entry.2)

variable {change : String → Value → Value}

theorem mapEntries_insert (record : Fields Value) (name : String) (value : Value) :
    mapEntries change (insert record name value) =
      insert (mapEntries change record) name (change name value) := by
  induction record with
  | nil => rfl
  | cons entry rest ih =>
    obtain ⟨key, old⟩ := entry
    show mapEntries change (if name < key then _ else if name = key then _ else _) =
      if name < key then _ else if name = key then _ else _
    by_cases hless : name < key
    · rw [if_pos hless, if_pos hless]
      rfl
    rw [if_neg hless, if_neg hless]
    by_cases heq : name = key
    · rw [if_pos heq, if_pos heq]
      rfl
    · rw [if_neg heq, if_neg heq]
      exact congrArg (_ :: ·) ih

theorem mapEntries_of_same (h : ∀ name value, change name value = value) (record : Fields Value) :
    mapEntries change record = record := by
  unfold mapEntries
  simp only [h]
  exact List.map_id _

theorem isEmpty_mapEntries (record : Fields Value) :
    (mapEntries change record).isEmpty = record.isEmpty := by
  cases record <;> rfl

theorem insert_ne_nil {α : Type} (record : Fields α) (name : String) (entry : α) :
    insert record name entry ≠ [] := by
  intro h
  have hget := get?_insert_self record name entry
  rw [h] at hget
  cases hget

end Fields

/-! ## Transforms that depend on values only -/

namespace Transform

/-- Whether all functions of a transform depend on the value only. -/
inductive Contextless : Transform → Prop where
  | map {f : Value → FieldContext → Noted Value}
    (h : ∀ value context other, (f value context).value = (f value other).value) :
    Contextless (.map f)
  | fields {entries : List (String × Transform)}
    (h : ∀ name inner, Fields.get? entries name = some inner → Contextless inner) :
    Contextless (.fields entries)

theorem contextless_fields {entries : List (String × Transform)}
    (h : ∀ entry ∈ entries, entry.2.Contextless) : (fields entries).Contextless := by
  refine .fields fun name inner hinner => ?_
  induction entries with
  | nil => cases hinner
  | cons entry rest ih =>
    obtain ⟨key, other⟩ := entry
    change (if key = name then some other else Fields.get? rest name) = some inner at hinner
    by_cases hkey : key = name
    · rw [if_pos hkey] at hinner
      cases hinner
      exact h _ List.mem_cons_self
    · rw [if_neg hkey] at hinner
      exact ih (fun other hother => h other (List.mem_cons_of_mem _ hother)) hinner

/-- A context for functions that do not look at it. -/
def blank : FieldContext :=
  { path := "", index := none, order := none, user := .null, record := [] }

/-- What a transform makes of a value. -/
def changed (transform : Option Transform) (value : Value) : Value :=
  match transform with
  | some (.map f) => (f value blank).value
  | _ => value

/-- Whether all functions of a transform, if there is one, depend on the value only. -/
def Bare (transform : Option Transform) : Prop :=
  ∀ inner, transform = some inner → inner.Contextless

theorem Bare.field? {transform : Option Transform} (h : Bare transform) (name : String) :
    Bare (transform.bind (·.field? name)) := by
  intro inner hinner
  obtain ⟨outer, houter, hfield⟩ := Option.bind_eq_some_iff.mp hinner
  cases h outer houter with
  | map => cases hfield
  | fields hfields => exact hfields name inner hfield

theorem eq_changed_of_gives {transform : Option Transform} (h : Bare transform)
    {value result : Value} (hgives : Gives transform value result) :
    result = changed transform value := by
  cases transform with
  | none => exact hgives
  | some transform =>
    cases transform with
    | map f =>
      obtain ⟨context, rfl⟩ := hgives
      cases h _ rfl with
      | map hsame => exact hsame value context blank
    | fields entries => exact hgives

end Transform

namespace Node

mutual

/-- The names of the fields of a tree that go into one record, also of those in directories. -/
def keys : Node → List String
  | .mk kind name _ _ =>
    match kind with
    | .order _ children => keysAll children
    | .group children => keysAll children
    | .directory _ children => keysAll children
    | .int _ => name.toList
    | .float _ => name.toList
    | _ => []
termination_by structural node => node

def keysAll : List Node → List String
  | [] => []
  | node :: rest => keys node ++ keysAll rest
termination_by structural nodes => nodes

end

/-- Whether elements have fields and all of them are named, or are a single field without name. -/
def Uniform (elements : List Node) : Prop :=
  elements.all isKeyed = true ∧ keysAll elements ≠ [] ∨
    ∃ node, elements = [node] ∧ node.isKeyed = false

/-- A field without name has no place in a record. -/
theorem keysAll_of_unkeyed {node : Node} (h : node.isKeyed = false) : keysAll [node] = [] := by
  obtain ⟨kind, name, default, payload⟩ := node
  cases name with
  | some name => cases h
  | none =>
    cases kind with
    | int kind => rfl
    | float kind => rfl
    | custom codec => rfl
    | _ => cases h

mutual

/-- Whether the elements of all sequences in a tree are uniform, with distinct names. -/
def Tidy : Node → Prop
  | .mk kind _ _ payload => TidyPayload payload ∧ TidyKind kind

def TidyPayload : Payload → Prop
  | .none => True
  | .text _ => True
  | .sequence elements => Uniform elements ∧ (keysAll elements).Nodup ∧ TidyAll elements

def TidyKind : Kind → Prop
  | .order _ children => TidyAll children
  | .group children => TidyAll children
  | .directory _ children => TidyAll children
  | _ => True

def TidyAll : List Node → Prop
  | [] => True
  | node :: rest => Tidy node ∧ TidyAll rest

end

mutual

/-- What a transform makes of the value under a name, if a tree has a field of that name. -/
def rewritten (transform : Option Transform) (key : String) (value : Value) : Node → Value
  | .mk kind name _ payload =>
    match kind with
    | .order _ children => rewrittenAll transform key value children
    | .group children => rewrittenAll transform key value children
    | .directory path children => rewrittenAll (transform.bind (·.field? path)) key value children
    | .int _ =>
      if name = some key then rewrittenPayload (transform.bind (·.field? key)) value payload
      else value
    | .float _ =>
      if name = some key then Transform.changed (transform.bind (·.field? key)) value else value
    | _ => value
termination_by structural node => node

/-- What the transform of its name makes of a field with a payload: a function changes each item of
a sequence as a whole, entries change the fields of the items that are records. -/
def rewrittenPayload (transform : Option Transform) (value : Value) : Payload → Value
  | .sequence elements =>
    match transform, value with
    | some (.map f), .list items => .list (items.map fun item => (f item Transform.blank).value)
    | some (.fields entries), .list items => .list (items.map fun
        | .record record => .record (Fields.mapEntries (fun key value =>
            rewrittenAll (some (.fields entries)) key value elements) record)
        | item => item)
    | _, value => value
  | .text _ => Transform.changed transform value
  | .none => Transform.changed transform value
termination_by structural payload => payload

def rewrittenAll (transform : Option Transform) (key : String) (value : Value) :
    List Node → Value
  | [] => value
  | node :: rest => rewrittenAll transform key (rewritten transform key value node) rest
termination_by structural nodes => nodes

end

/-- An item, changed as the transform of its sequence says. -/
def changedItem (transform : Option Transform) (elements : List Node) (item : Value) : Value :=
  match transform, item with
  | some (.map f), item => (f item Transform.blank).value
  | some (.fields entries), .record record => .record (Fields.mapEntries (fun key value =>
      rewrittenAll (some (.fields entries)) key value elements) record)
  | _, item => item

theorem rewrittenPayload_sequence (transform : Option Transform) (elements : List Node)
    (items : List Value) : rewrittenPayload transform (.list items) (.sequence elements) =
      .list (items.map (changedItem transform elements)) := by
  cases transform with
  | none =>
    have hsame : changedItem none elements = id := by
      funext item
      cases item <;> rfl
    rw [hsame, List.map_id]
    rfl
  | some transform =>
    cases transform with
    | map f => rfl
    | fields entries =>
      refine congrArg Value.list (List.map_congr_left fun item _ => ?_)
      cases item <;> rfl

mutual

/-- What has another name is left alone. -/
theorem rewritten_of_not_mem {transform : Option Transform} {key : String} {value : Value} :
    ∀ node : Node, key ∉ node.keys → node.rewritten transform key value = value
  | .mk kind name default payload => by
    intro h
    cases kind with
    | order order children => exact rewrittenAll_of_not_mem children h
    | group children => exact rewrittenAll_of_not_mem children h
    | directory path children => exact rewrittenAll_of_not_mem children h
    | int kind =>
      refine if_neg fun hname => h ?_
      rw [keys, hname]
      exact List.mem_singleton_self key
    | float kind =>
      refine if_neg fun hname => h ?_
      rw [keys, hname]
      exact List.mem_singleton_self key
    | file path children => rfl
    | select choose => rfl
    | custom codec => rfl
    | text encoding => rfl
termination_by structural node => node

theorem rewrittenAll_of_not_mem {transform : Option Transform} {key : String} {value : Value} :
    ∀ nodes : List Node, key ∉ keysAll nodes → rewrittenAll transform key value nodes = value
  | [], _ => rfl
  | node :: rest, h => by
    rw [keysAll, List.mem_append, not_or] at h
    rw [rewrittenAll, rewritten_of_not_mem node h.1]
    exact rewrittenAll_of_not_mem rest h.2
termination_by structural nodes => nodes

end

end Node

namespace Read

open Lockstep

/-- What a node leaves behind with a transform, compared with what it leaves behind without: every
value in the record is changed, and a field without name gives the same. -/
structure KeptFollows (change : String → Value → Value) (before : Fields Value) (node : Node)
    (kept plain : Kept) : Prop where
  record : kept.2 = Fields.mapEntries change plain.2
  value : node.isKeyed = false → kept.1 = plain.1
  filled : before ≠ [] ∨ node.keys ≠ [] → plain.2 ≠ []

/-- What nodes one after the other leave behind with a transform. -/
structure WalkedFollows (change : String → Value → Value) (before : Fields Value)
    (nodes : List Node) (walked plain : List Value × Fields Value) : Prop where
  record : walked.2 = Fields.mapEntries change plain.2
  values : (∀ node ∈ nodes, node.isKeyed = false) → walked.1 = plain.1
  filled : before ≠ [] ∨ Node.keysAll nodes ≠ [] → plain.2 ≠ []

variable {change : String → Value → Value} {before : Fields Value}

/-- Of uniform elements, the items that are records are changed within, and others are the same. -/
theorem WalkedFollows.itemValue {elements : List Node} (huniform : Node.Uniform elements)
    {walked plain : List Value × Fields Value} (h : WalkedFollows change [] elements walked plain)
    (hchange : ∀ key ∉ Node.keysAll elements, ∀ value, change key value = value) :
    Node.itemValue elements walked.2 walked.1 =
      match Node.itemValue elements plain.2 plain.1 with
      | .record record => .record (Fields.mapEntries change record)
      | item => item := by
  rcases huniform with ⟨hkeyed, hkeys⟩ | ⟨node, rfl, hunkeyed⟩
  · have hplain : plain.2.isEmpty = false :=
      List.isEmpty_eq_false_iff.mpr (h.filled (.inr hkeys))
    unfold Node.itemValue
    rw [h.record, Fields.isEmpty_mapEntries, hplain, hkeyed]
    rfl
  · have hkeys : Node.keysAll [node] = [] := Node.keysAll_of_unkeyed hunkeyed
    have hsame : ∀ record, Fields.mapEntries change record = record :=
      Fields.mapEntries_of_same fun key => hchange key (by rw [hkeys]; exact List.not_mem_nil)
    have hall : [node].all Node.isKeyed = false := by
      rw [List.all_cons, hunkeyed, Bool.false_and]
    have hvalue : Node.itemValue [node] walked.2 walked.1 =
        Node.itemValue [node] plain.2 plain.1 := by
      unfold Node.itemValue
      rw [hall, h.values (List.forall_mem_singleton.mpr hunkeyed)]
      rfl
    rw [hvalue]
    cases Node.itemValue [node] plain.2 plain.1 with
    | record record => exact congrArg Value.record (hsame record).symm
    | _ => rfl

namespace Pass

variable {pass : Pass} {name : Option String} {scope : Scope} {transform : Option Transform}
  {record : Fields Value}

/-- A field keeps the changed value. -/
theorem keep_follows {kind : Kind} {default : Option Value} {payload : Payload}
    (hkeys : (Node.mk kind name default payload).keys = name.toList) {value plain : Value}
    (hunnamed : name = none → value = plain)
    (hnamed : ∀ key, name = some key → value = change key plain) :
    KeptFollows change record (.mk kind name default payload)
      (keep name (Fields.mapEntries change record) value) (keep name record plain) := by
  cases name with
  | none =>
    refine ⟨rfl, fun _ => hunnamed rfl, fun h => h.resolve_right ?_⟩
    rw [hkeys]
    exact not_not_intro rfl
  | some key =>
    refine ⟨?_, nofun, fun _ => Fields.insert_ne_nil record key plain⟩
    rw [hnamed key rfl]
    exact (Fields.mapEntries_insert record key plain).symm

theorem settle_follows {kind : Kind} {default : Option Value} {payload : Payload}
    (hkeys : (Node.mk kind name default payload).keys = name.toList)
    (hbare : Transform.Bare transform)
    (hchange : ∀ key, name = some key → ∀ value,
      change key value = Transform.changed (transform.bind (·.field? key)) value) (value : Value) :
    Lockstep (KeptFollows change record (.mk kind name default payload))
      (pass.settle name scope transform (Fields.mapEntries change record) value)
      (pass.settle name scope none record value) := by
  cases name with
  | none => exact .pure (keep_follows hkeys (fun _ => rfl) nofun)
  | some name =>
    refine (transformed_lockstep _ _ value).bind fun result result' hresult => ?_
    obtain ⟨rfl, hgives⟩ := hresult
    refine .pure (keep_follows hkeys nofun fun key hkey => ?_)
    cases hkey
    rw [hchange name rfl]
    exact Transform.eq_changed_of_gives (hbare.field? name) hgives

/-- What the elements of an item leave behind makes the changed item. -/
theorem item_follows {elements : List Node} (huniform : Node.Uniform elements)
    (hbare : Transform.Bare transform)
    {content : Scope → Option Transform → Plan (List Value × Fields Value)}
    (hcontent : ∀ inner within, Transform.Bare within → Lockstep (WalkedFollows
      (fun key value => Node.rewrittenAll within key value elements) [] elements)
        (content inner within) (content inner none)) (inner : Scope) :
    Lockstep (fun walked plain => Transform.changed transform
        (Node.itemValue elements walked.2 walked.1) =
          Node.changedItem transform elements (Node.itemValue elements plain.2 plain.1))
      (content inner (transform.filter fun transform => transform.function?.isNone))
      (content inner none) := by
  cases transform with
  | none =>
    refine (Lockstep.refl _).mono fun walked plain hsame => ?_
    rw [hsame]
    rfl
  | some transform =>
    cases transform with
    | map f =>
      -- a function changes whole items, which are read as if there were no transform
      refine (Lockstep.refl _).mono fun walked plain hsame => ?_
      rw [hsame]
      rfl
    | fields entries =>
      refine (hcontent inner _ hbare).mono fun walked plain hwalked => ?_
      refine (hwalked.itemValue huniform fun key hkey value =>
        Node.rewrittenAll_of_not_mem elements hkey).trans ?_
      cases Node.itemValue elements plain.2 plain.1 <;> rfl

theorem sequence_follows {kind : IntKind} {elements : List Node} {default : Option Value}
    (hbare : Transform.Bare transform) (huniform : Node.Uniform elements)
    {content : Scope → Option Transform → Plan (List Value × Fields Value)}
    (hcontent : ∀ inner within, Transform.Bare within → Lockstep (WalkedFollows
      (fun key value => Node.rewrittenAll within key value elements) [] elements)
        (content inner within) (content inner none))
    (hchange : ∀ key, name = some key → ∀ value, change key value =
      Node.rewrittenPayload (transform.bind (·.field? key)) value (.sequence elements)) :
    Lockstep (KeptFollows change record (.mk (.int kind) name default (.sequence elements)))
      (pass.sequence kind elements name scope transform (Fields.mapEntries change record) content)
      (pass.sequence kind elements name scope none record content) := by
  refine .same _ fun n => .same _ fun count => ?_
  cases name with
  | none =>
    -- the items of a sequence without a name are read as if there were no transform
    refine (Lockstep.refl _).bind fun items items' hitems => .pure ?_
    exact keep_follows rfl (fun _ => congrArg Value.list hitems) nofun
  | some name =>
    have hfield := hbare.field? name
    have hitem := item_follows huniform hfield hcontent
    refine (Lockstep.collect (R := fun item item' =>
        item = Node.changedItem (transform.bind (·.field? name)) elements item')
      (fun index => ?_) count 0 .nil).bind fun items items' hitems =>
        .pure (keep_follows rfl nofun fun key hkey => ?_)
    · refine (hitem (scope.item index)).bind fun walked walked' hwalked => ?_
      refine (transformed_lockstep _ _ _).bind fun item item' hresult => .same _ fun _ => .pure ?_
      obtain ⟨rfl, hgives⟩ := hresult
      exact (Transform.eq_changed_of_gives hfield hgives).trans hwalked
    · cases hkey
      have hmap : List.Forall₂ Eq items (items'.map (Node.changedItem _ elements)) :=
        List.forall₂_map_right_iff.mpr hitems
      rw [hchange name rfl, Node.rewrittenPayload_sequence, List.forall₂_eq_eq_eq.le _ _ hmap]

theorem arrange_follows {node : Node} {nodes : List Node} (hkeys : node.keys = Node.keysAll nodes)
    {walked plain : Plan (List Value × Fields Value)}
    (h : Lockstep (WalkedFollows change record nodes) walked plain) :
    Lockstep (KeptFollows change record node) (arrange walked) (arrange plain) := by
  refine h.bind fun _ _ hwalked => .pure ⟨hwalked.record, fun _ => rfl, ?_⟩
  rw [hkeys]
  exact hwalked.filled

mutual

/-- **A node goes in lockstep with itself without the transform**, if the record is changed under
its names as the transform changes what it keeps there. -/
theorem walk_follows (pass : Pass) (site : Site) (scope : Scope) (transform : Option Transform)
    (hbare : Transform.Bare transform) {change : String → Value → Value} (record : Fields Value) :
    ∀ node : Node, node.Every Kind.Fixed → node.Tidy → node.keys.Nodup →
      (∀ key ∈ node.keys, ∀ value, change key value = node.rewritten transform key value) →
      Lockstep (KeptFollows change record node)
        (pass.walk site scope transform (Fields.mapEntries change record) node)
        (pass.walk site scope none record node)
  | .mk kind name default payload => by
    rintro ⟨hkind, hparts, hbelow⟩ ⟨htidyParts, htidyBelow⟩ hnodup hchange
    cases kind with
    | order order children =>
      rw [walk, walk]
      exact arrange_follows rfl
        (walkAll_follows pass _ _ _ hbare record children hbelow htidyBelow hnodup hchange)
    | group children =>
      rw [walk, walk]
      exact arrange_follows rfl
        (walkAll_follows pass _ _ _ hbare record children hbelow htidyBelow hnodup hchange)
    | directory path children =>
      rw [walk, walk]
      exact arrange_follows rfl (walkAll_follows pass _ _ _ (hbare.field? path) record children
        hbelow htidyBelow hnodup hchange)
    | file path children => exact absurd hkind id
    | select choose => exact absurd hkind id
    | custom codec => exact absurd hkind id
    | text encoding =>
      rw [walk, walk]
      exact .error _
    | float kind =>
      rw [walk, walk]
      refine .same _ fun _ => .same _ fun _ => .same _ fun _ => ?_
      refine settle_follows rfl hbare (fun key hkey value => ?_) _
      rw [hchange key (hkey ▸ List.mem_singleton_self key)]
      exact if_pos hkey
    | int kind =>
      have hfield : ∀ key, name = some key → ∀ value, change key value =
          Node.rewrittenPayload (transform.bind (·.field? key)) value payload := by
        intro key hkey value
        rw [hchange key (hkey ▸ List.mem_singleton_self key)]
        exact if_pos hkey
      cases payload with
      | none =>
        rw [walk, walk]
        exact .same _ fun _ => settle_follows rfl hbare hfield _
      | text text =>
        rw [walk, walk]
        refine .same _ fun _ => .same _ fun _ => ?_
        split
        · exact .same _ fun _ => settle_follows rfl hbare hfield _
        · exact .error _
      | sequence elements =>
        rw [walk, walk]
        obtain ⟨huniform, hdistinct, htidy⟩ := htidyParts
        refine sequence_follows hbare huniform (fun inner within hwithin => ?_) hfield
        exact walkAll_follows pass _ inner within hwithin [] elements hparts htidy hdistinct
          fun _ _ _ => rfl
termination_by structural node => node

theorem walkAll_follows (pass : Pass) (site : Site) (scope : Scope) (transform : Option Transform)
    (hbare : Transform.Bare transform) {change : String → Value → Value} (record : Fields Value) :
    ∀ nodes : List Node, Node.EveryAll Kind.Fixed nodes → Node.TidyAll nodes →
      (Node.keysAll nodes).Nodup →
      (∀ key ∈ Node.keysAll nodes, ∀ value,
        change key value = Node.rewrittenAll transform key value nodes) →
      Lockstep (WalkedFollows change record nodes)
        (pass.walkAll site scope transform (Fields.mapEntries change record) nodes)
        (pass.walkAll site scope none record nodes)
  | [] => by
    intro _ _ _ _
    rw [walkAll, walkAll]
    exact .pure ⟨rfl, fun _ => rfl, fun h => h.resolve_right (not_not_intro rfl)⟩
  | node :: rest => by
    rintro ⟨hnode, hrest⟩ ⟨htidy, htidyRest⟩ hnodup hchange
    rw [Node.keysAll] at hnodup hchange
    obtain ⟨hnodupFirst, hnodupRest, hdisjoint⟩ := List.nodup_append.mp hnodup
    rw [walkAll, walkAll]
    refine (walk_follows pass site scope transform hbare record node hnode htidy hnodupFirst
      fun key hkey value => ?_).bind fun kept plain hkept => ?_
    · -- the other nodes have other names
      rw [hchange key (List.mem_append_left _ hkey), Node.rewrittenAll]
      exact Node.rewrittenAll_of_not_mem rest fun hmem => hdisjoint key hkey key hmem rfl
    · obtain ⟨value, after⟩ := kept
      obtain rfl : after = _ := hkept.record
      refine (walkAll_follows pass site scope transform hbare plain.2 rest hrest htidyRest
        hnodupRest fun key hkey value => ?_).bind fun walked others hwalked =>
          .pure ⟨hwalked.record, ?_, ?_⟩
      · rw [hchange key (List.mem_append_right _ hkey), Node.rewrittenAll,
          Node.rewritten_of_not_mem node fun hmem => hdisjoint key hmem key hkey rfl]
      · intro hunkeyed
        exact congrArg₂ List.cons (hkept.value (hunkeyed node List.mem_cons_self))
          (hwalked.values fun other hother => hunkeyed other (List.mem_cons_of_mem _ hother))
      · intro h
        refine hwalked.filled ?_
        by_cases hnone : Node.keysAll rest = []
        · rw [Node.keysAll, hnone, List.append_nil] at h
          exact .inl (hkept.filled h)
        · exact .inr hnone
termination_by structural nodes => nodes

end

end Pass

end Read

/-! ## Read passes -/

/-- What a transform makes of the record of a tree. -/
def Node.rewrittenRecord (transform : Transform) (root : Node) (record : Fields Value) :
    Fields Value :=
  Fields.mapEntries (fun key value => root.rewritten transform key value) record

namespace Schema

open Read

theorem readPlan_rewritten (schema : Schema) (hfixed : schema.root.Every Kind.Fixed)
    (htidy : schema.root.Tidy) (hnodup : schema.root.keys.Nodup) {transform : Transform}
    (hbare : transform.Contextless) (options : Options) :
    Lockstep (fun record plain => record = schema.root.rewrittenRecord transform plain)
      (schema.readPlan (some transform) options) (schema.readPlan none options) := by
  have hfiles : schema.fileCount = 0 := Node.fileCount_of_fixed hfixed
  have hbare : Transform.Bare (some transform) := fun inner hinner => Option.some.inj hinner ▸ hbare
  have hkeys : Node.keysAll [schema.root] = schema.root.keys := List.append_nil _
  unfold readPlan
  rw [hfiles]
  refine .same _ fun target => .same _ fun _ => .same _ fun inner => .same _ fun _ =>
    .same _ fun _ => ?_
  refine (Pass.walkAll_follows _ _ inner _ hbare [] [schema.root] ⟨hfixed, trivial⟩
    ⟨htidy, trivial⟩ (hkeys ▸ hnodup) fun _ _ _ => rfl).bind fun walked plain hwalked => ?_
  exact .same _ fun _ => .pure hwalked.record

/-- **A transform rewrites the result of a read pass and nothing else.** Let a layout of integers,
floats, texts and sequences have distinct names in every record, with elements that are uniform, and
let the functions of the transform depend on the value only. If a source is read without the
transform, it is read with it, too, and the record is the one before, rewritten; the same files are
opened, the same fields announced and the same bytes consumed. -/
theorem read_rewritten (schema : Schema) (hfixed : schema.root.Every Kind.Fixed)
    (htidy : schema.root.Tidy) (hnodup : schema.root.keys.Nodup) {transform : Transform}
    (hbare : transform.Contextless) (options : Options) (opener : SourceOpener)
    {record : Fields Value} (h : (schema.read none options opener).result = .ok record) :
    (schema.read (some transform) options opener).result =
        .ok (schema.root.rewrittenRecord transform record) ∧
      (schema.read (some transform) options opener).Alike (schema.read none options opener) := by
  have hplans := schema.readPlan_rewritten hfixed htidy hnodup hbare options
  refine ⟨?_, hplans.answer _ _⟩
  have hend : Stage.SameEnd _ (schema.read (some transform) options opener).result
      (schema.read none options opener).result := hplans.result_answer _ _
  rw [h] at hend
  cases hread : (schema.read (some transform) options opener).result with
  | error error =>
    rw [hread] at hend
    exact absurd hend id
  | ok result =>
    rw [hread] at hend
    exact congrArg Except.ok hend

/-- Records, bare items and a directory behind a byte. -/
def shelves : Schema :=
  ⟨.ofKind (.order .big [byteField "a",
    (byteField "list").withSequence [byteField "x", .ofKind (.group [byteField "y"])],
    (byteField "bare").withSequence [.ofKind (.int .u8)],
    .ofKind (.directory "d" [byteField "b"])]), .root, rfl⟩

/-- Adds a hundred to integers. -/
def raising : Transform :=
  .map fun value _ => ⟨match value with | .int n => .int (n + 100) | other => other, []⟩

/-- Raises a byte of its own, a byte of each record, all bare items, and the byte below the
directory. -/
def shelvesRaised : Transform :=
  .fields [("a", raising), ("bare", raising), ("d", .fields [("b", raising)]),
    ("list", .fields [("x", raising)])]

theorem contextless_raising : raising.Contextless := .map fun _ _ _ => rfl

theorem contextless_shelvesRaised : shelvesRaised.Contextless := by
  have hsingle : ∀ name, Transform.Contextless (.fields [(name, raising)]) := fun name =>
    Transform.contextless_fields (List.forall_mem_singleton.mpr contextless_raising)
  refine Transform.contextless_fields fun entry hentry => ?_
  simp only [List.mem_cons, List.not_mem_nil, or_false] at hentry
  rcases hentry with rfl | rfl | rfl | rfl
  · exact contextless_raising
  · exact contextless_raising
  · exact hsingle "b"
  · exact hsingle "x"

theorem shelves_fixed : shelves.root.Every Kind.Fixed := by
  have hbyte : ∀ name, (byteField name).Every Kind.Fixed := fun _ => ⟨trivial, trivial, trivial⟩
  have hbare : (Node.ofKind (.int .u8)).Every Kind.Fixed := ⟨trivial, trivial, trivial⟩
  exact ⟨trivial, trivial, hbyte "a",
    ⟨trivial, ⟨hbyte "x", ⟨trivial, trivial, hbyte "y", trivial⟩, trivial⟩, trivial⟩,
    ⟨trivial, ⟨hbare, trivial⟩, trivial⟩, ⟨trivial, trivial, hbyte "b", trivial⟩, trivial⟩

theorem shelves_tidy : shelves.root.Tidy := by
  have hbyte : ∀ name, (byteField name).Tidy := fun _ => ⟨trivial, trivial⟩
  have hpair : Node.Uniform [byteField "x", .ofKind (.group [byteField "y"])] :=
    .inl ⟨rfl, List.cons_ne_nil _ _⟩
  have hbare : Node.Uniform [.ofKind (.int .u8)] := .inr ⟨_, rfl, rfl⟩
  exact ⟨trivial, hbyte "a",
    ⟨⟨hpair, by decide, hbyte "x", ⟨trivial, hbyte "y", trivial⟩, trivial⟩, trivial⟩,
    ⟨⟨hbare, by decide, ⟨trivial, trivial⟩, trivial⟩, trivial⟩,
    ⟨trivial, hbyte "b", trivial⟩, trivial⟩

theorem shelves_read : (shelves.read none taggedOptions fun _ _ =>
    .ok (.ofBytes [1, 1, 2, 3, 2, 4, 5, 6])).result =
      .ok [("a", .int 1), ("b", .int 6), ("bare", .list [.int 4, .int 5]),
        ("list", .list [.record [("x", .int 2), ("y", .int 3)]])] := by
  obtain ⟨results, hparse⟩ : ∃ results,
      (shelves.contentPlan none taggedOptions.user ("", "out")).parse [1, 1, 2, 3, 2, 4, 5, 6] =
        .ok ((results, [("a", .int 1), ("b", .int 6), ("bare", .list [.int 4, .int 5]),
          ("list", .list [.record [("x", .int 2), ("y", .int 3)]])]), []) := ⟨_, rfl⟩
  have hbuiltIn : shelves.root.Every Kind.BuiltIn :=
    Node.Every.imp (fun _ => Kind.Fixed.builtIn) shelves.root shelves_fixed
  exact Schema.read_of_parse rfl hbuiltIn splitTarget_out (gives_ofBytes _).brings hparse

theorem read_rewritten_shelves :
    shelves.root.Every Kind.Fixed ∧ shelves.root.Tidy ∧ shelves.root.keys.Nodup ∧
      shelvesRaised.Contextless ∧
      (shelves.read none taggedOptions fun _ _ =>
          .ok (.ofBytes [1, 1, 2, 3, 2, 4, 5, 6])).result =
        .ok [("a", .int 1), ("b", .int 6), ("bare", .list [.int 4, .int 5]),
          ("list", .list [.record [("x", .int 2), ("y", .int 3)]])] ∧
      (shelves.read (some shelvesRaised) taggedOptions fun _ _ =>
          .ok (.ofBytes [1, 1, 2, 3, 2, 4, 5, 6])).result =
        .ok [("a", .int 101), ("b", .int 106), ("bare", .list [.int 104, .int 105]),
          ("list", .list [.record [("x", .int 102), ("y", .int 3)]])] := by
  have hnodup : shelves.root.keys.Nodup := by decide
  refine ⟨shelves_fixed, shelves_tidy, hnodup, contextless_shelvesRaised, shelves_read, ?_⟩
  exact (read_rewritten shelves shelves_fixed shelves_tidy hnodup contextless_shelvesRaised
    taggedOptions _ shelves_read).1

/-- A byte in a directory, in a layout of one file. -/
def filed : Schema :=
  ⟨.ofKind (.order .big [.ofKind (.directory "d" [byteField "x"])]), .root, rfl⟩

theorem filed_fixed : filed.root.Every Kind.Fixed :=
  ⟨trivial, trivial, ⟨trivial, trivial, ⟨trivial, trivial, trivial⟩, trivial⟩, trivial⟩

/-- **A function under the name of a field does not reach it in a directory.** The transform is
looked up under the path of the directory first. -/
theorem read_unmoved_filed :
    filed.root.Every Kind.Fixed ∧ filed.root.Tidy ∧ filed.root.keys.Nodup ∧
      (masking "x").Contextless ∧
      (filed.read none taggedOptions fun _ _ => .ok (.ofBytes [5])).result =
        .ok [("x", .int 5)] ∧
      (filed.read (some (masking "x")) taggedOptions fun _ _ => .ok (.ofBytes [5])).result ≠
        .ok [("x", .int 7)] := by
  have hread : ∀ transform : Option Transform, (∃ results,
      (filed.contentPlan transform taggedOptions.user ("", "out")).parse [5] =
        .ok ((results, [("x", .int 5)]), [])) →
      (filed.read transform taggedOptions fun _ _ => .ok (.ofBytes [5])).result =
        .ok [("x", .int 5)] := fun transform ⟨_, hparse⟩ =>
    read_of_parse rfl (Node.Every.imp (fun _ => Kind.Fixed.builtIn) filed.root filed_fixed)
      splitTarget_out (gives_ofBytes [5]).brings hparse
  refine ⟨filed_fixed, ⟨trivial, ⟨trivial, ⟨trivial, trivial⟩, trivial⟩, trivial⟩, by decide,
    Transform.contextless_fields (List.forall_mem_singleton.mpr (.map fun _ _ _ => rfl)),
    hread none ⟨_, rfl⟩, ?_⟩
  rw [hread (some (masking "x")) ⟨_, rfl⟩]
  intro h
  cases h

end Schema

end ByteLayout
