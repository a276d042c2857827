import ByteLayout.Proofs.Table
import ByteLayout.Proofs.WellFormed
import ByteLayout.Schema.Arena

/-!
# What building a table gives

**Theorem (`Arena.push_eq`).** Adding a tree to a table is checking it and, if the check accepts,
putting its entries behind those that are there: the links that are set afterwards are those that
the entries are listed with.

**Theorem (`Schema.ofNode_faithful`).** A tree is accepted if it is well-formed, and then the table
that is built lists its nodes with their links; otherwise the error is that of the first violation.
-/

namespace ByteLayout

namespace Arena

/-- The table with entries behind its own. -/
def grow (arena : Arena) (entries : List Entry) (files : Nat) : Arena :=
  ⟨arena.entries ++ entries.toArray, arena.files + files⟩

@[simp] theorem size_grow (arena : Arena) (entries : List Entry) (files : Nat) :
    (arena.grow entries files).entries.size = arena.entries.size + entries.length := by
  simp [grow]

@[simp] theorem grow_nil (arena : Arena) : arena.grow [] 0 = arena := by simp [grow]

@[simp] theorem grow_grow (arena : Arena) (front back : List Entry) (files more : Nat) :
    (arena.grow front files).grow back more = arena.grow (front ++ back) (files + more) := by
  simp [grow, Nat.add_assoc]

theorem add_eq_grow (arena : Arena) (entry : Entry) :
    arena.add entry = arena.grow [entry] entry.node.kind.isFile.toNat := by
  simp [add, grow]

/-- The first entry behind those that are there is linked. -/
theorem link_grow (arena : Arena) (entry : Entry) (entries : List Entry) (files : Nat)
    (payload : Slot) (children : List Nat) :
    (arena.grow (entry :: entries) files).link arena.entries.size payload children =
      arena.grow ({ entry with payload, children } :: entries) files := by
  unfold link grow
  congr 1
  apply Array.ext'
  rw [Array.toList_modify, Array.toList_append, Array.toList_append, ← Array.length_toList]
  exact List.modifyTailIdx_add _ 0 _ _

end Arena

namespace Arena

variable {site : Site} {parent : Nat}

theorem pushAll_eq {nodes : List Node} (h : ∀ node ∈ nodes, ∀ (arena : Arena) parent site,
      arena.push parent site node = (node.check site).map fun _ => (arena.entries.size,
        arena.grow (node.entries site.placement parent arena.entries.size) node.fileCount))
    (arena : Arena) : arena.pushAll parent site nodes = (Node.checkAll site nodes).map fun _ =>
      (Node.numbers arena.entries.size nodes,
        arena.grow (Node.entriesOfAll site.placement parent arena.entries.size nodes)
          (Node.filesInAll nodes)) := by
  induction nodes generalizing arena with
  | nil => exact congrArg (fun arena => Except.ok ([], arena)) arena.grow_nil.symm
  | cons node rest ih =>
    rw [pushAll, h node List.mem_cons_self, Node.checkAll]
    cases node.check site with
    | error error => rfl
    | ok =>
      have hrest := ih (fun other hother => h other (List.mem_cons_of_mem _ hother))
        (arena.grow (node.entries site.placement (some parent) arena.entries.size) node.fileCount)
      rw [size_grow, Node.length_entries] at hrest
      show (pushAll (arena.grow _ _) parent site rest).bind _ = (Node.checkAll site rest).map _
      rw [hrest]
      cases Node.checkAll site rest with
      | error error => rfl
      | ok => simp [Except.map, Except.bind, Pure.pure, Except.pure, Node.numbers,
          Node.entriesOfAll, Node.filesInAll]

/-- The payload of a node is added like a list of nodes. -/
theorem pushPayload_eq {node : Node} (h : ∀ part ∈ node.payload.nodes,
      ∀ (arena : Arena) parent site, arena.push parent site part =
        (part.check site).map fun _ => (arena.entries.size,
          arena.grow (part.entries site.placement parent arena.entries.size) part.fileCount))
    (arena : Arena) (parent : Nat) (site : Site) :
    arena.pushPayload parent (site.below .payload node) (site.below .element node) node.payload =
      (Node.checkAll (site.below node.payload.placement node) node.payload.nodes).map fun _ =>
        (Node.slot arena.entries.size node.payload,
          arena.grow (Node.entriesOfAll node.payload.placement parent arena.entries.size
            node.payload.nodes) (Node.filesInAll node.payload.nodes)) := by
  have hall :
      arena.pushAll parent (site.below node.payload.placement node) node.payload.nodes = _ :=
    pushAll_eq h arena
  cases hpayload : node.payload with
  | none => exact congrArg (fun arena => Except.ok (Slot.none, arena)) arena.grow_nil.symm
  | text text =>
    rw [hpayload] at h
    rw [pushPayload, h text (List.mem_singleton.mpr rfl)]
    show _ = (Node.checkAll (site.below .payload node) [text]).map _
    rw [Node.checkAll_singleton]
    cases text.check (site.below .payload node) with
    | error error => rfl
    | ok =>
      show Except.ok (_, arena.grow _ text.fileCount) =
        Except.ok (_, arena.grow (_ ++ []) (text.fileCount + 0))
      rw [List.append_nil]
      rfl
  | sequence elements =>
    rw [hpayload] at hall
    dsimp only [Payload.nodes, Payload.placement] at hall ⊢
    show (arena.pushAll parent (site.below .element node) elements).bind _ = _
    rw [hall]
    cases Node.checkAll (site.below .element node) elements <;> rfl

/-- A node is added without links, then its payload and its children are added, and then it is
linked to them. -/
theorem push_eq_bind (arena : Arena) (parent : Option Nat) (site : Site) (node : Node) :
    arena.push parent site node = (node.checkSelf site).bind fun _ =>
      ((arena.add ⟨node, site.placement, parent, .none, []⟩).pushPayload arena.entries.size
        (site.below .payload node) (site.below .element node) node.payload).bind fun below =>
          (below.2.pushAll arena.entries.size (site.below .child node) node.kind.children).bind
            fun children => .ok (arena.entries.size,
              children.2.link arena.entries.size below.1 children.1) := by
  obtain ⟨kind, name, default, payload⟩ := node
  have hkind : ∀ (arena : Arena) parent site,
      arena.pushKind parent site kind = arena.pushAll parent site kind.children := by
    intro arena parent site
    cases kind <;> rfl
  rw [push, Node.checkSelf]
  simp only [hkind]
  cases Node.checkKind site (.mk kind name default payload) with
  | error error => rfl
  | ok => cases Node.checkPayload site (.mk kind name default payload) <;> rfl

/-- **Adding a tree is checking it and putting its entries behind those that are there.** -/
theorem push_eq (arena : Arena) (parent : Option Nat) (site : Site) (node : Node) :
    arena.push parent site node = (node.check site).map fun _ => (arena.entries.size,
      arena.grow (node.entries site.placement parent arena.entries.size) node.fileCount) := by
  induction node using Node.induct generalizing arena parent site with
  | node node hpayload hchildren =>
  rw [push_eq_bind, Node.check_eq_bind, add_eq_grow]
  cases node.checkSelf site with
  | error error => rfl
  | ok =>
  simp only [Except.bind, pushPayload_eq hpayload]
  cases Node.checkAll (site.below node.payload.placement node) node.payload.nodes with
  | error error => rfl
  | ok =>
  simp only [Except.map, pushAll_eq hchildren]
  cases Node.checkAll (site.below .child node) node.kind.children with
  | error error => rfl
  | ok =>
  have hnext : arena.entries.size + (Node.sizeAll node.payload.nodes + 1) =
      arena.entries.size + 1 + Node.sizeAll node.payload.nodes := by omega
  have hfiles : Node.filesInAll node.payload.nodes + node.kind.isFile.toNat +
      Node.filesInAll node.kind.children = node.fileCount := by
    rw [Node.fileCount_eq]
    omega
  simp only [grow_grow, size_grow, List.cons_append, List.nil_append, List.length_cons,
    link_grow, Node.length_entriesOfAll, hnext, Nat.add_comm node.kind.isFile.toNat, hfiles]
  rw [Node.entries_eq]
  rfl

/-- Building the table of a tree is checking it and listing its entries. -/
theorem build_eq (site : Site) (node : Node) : build site node =
    (node.check site).map fun _ =>
      ⟨(node.entries site.placement none 0).toArray, node.fileCount⟩ := by
  rw [build, push_eq]
  cases node.check site with
  | error error => rfl
  | ok =>
    show Except.ok (empty.grow _ _) = _
    rw [grow, show empty.files = 0 from rfl, Nat.zero_add]
    exact congrArg (fun entries => Except.ok (Arena.mk entries node.fileCount))
      (Array.empty_append ..)

/-! ## Faithful tables -/

/-- The entry with a number. -/
def entryAt? (arena : Arena) (id : Nat) : Option Entry := arena.entries[id]?

/-- The node with a number and its placement. -/
def spot? (arena : Arena) (id : Nat) : Option (Placement × Node) :=
  (arena.entryAt? id).map Entry.spot

end Arena

/-- Whether a slot leads to the nodes of a payload, in their order. -/
def Slot.Leads (arena : Arena) : Slot → Payload → Prop
  | .none, .none => True
  | .text id, .text node => arena.spot? id = some (.payload, node)
  | .sequence ids, .sequence elements =>
    ids.map arena.spot? = elements.map fun element => some (.element, element)
  | _, _ => False

/-- Whether a table keeps a tree as it was declared. -/
structure Arena.Keeps (arena : Arena) (root : Node) : Prop where
  /-- There is one entry for each node, in the order of declaration. -/
  spots : arena.entries.toList.map Entry.spot = (root.occurrences .root).map Occurrence.spot
  files : arena.files =
    (root.occurrences .root).countP fun occurrence => occurrence.node.kind.isFile
  /-- The links of an entry rise from its own number. -/
  rising : ∀ id entry, arena.entryAt? id = some entry → (id :: entry.links).Pairwise (· < ·)
  payload : ∀ id entry, arena.entryAt? id = some entry →
    entry.payload.Leads arena entry.node.payload
  children : ∀ id entry, arena.entryAt? id = some entry → entry.children.map arena.spot? =
    entry.node.kind.children.map fun child => some (.child, child)
  top : ∀ entry, arena.entryAt? 0 = some entry → entry.parent = none
  /-- Every other entry is linked to by exactly one, its parent, which has a smaller number. -/
  below : ∀ id entry, arena.entryAt? id = some entry → 0 < id →
    ∃ parent < id, entry.parent = some parent ∧
      ∀ other above, arena.entryAt? other = some above → (id ∈ above.links ↔ other = parent)

/-- Whether an error is that of the first node, in the order of declaration, that breaks a rule. -/
def Node.FirstViolation (root : Node) (error : Error) : Prop :=
  ∃ before occurrence after, root.occurrences .root = before ++ occurrence :: after ∧
    (∀ other ∈ before, other.violation? = none) ∧ occurrence.violation? = some error

namespace Listed

variable {table : List Entry} {placement : Placement} {parent : Nat} {ids : List Nat}
  {nodes : List Node}

theorem map_spot (h : Listed table placement parent ids nodes) :
    (ids.map fun id => table[id]?.map Entry.spot) =
      nodes.map fun node => some (placement, node) := by
  induction h with
  | nil => rfl
  | @cons id node ids nodes hentry _ ih =>
    rw [List.map_cons, List.map_cons, ih, hentry]
    rfl

end Listed

/-- What an entry links to has it as its parent. -/
theorem Entry.Stands.parent_of_mem_links {table : List Entry} {id link : Nat} {entry : Entry}
    (h : entry.Stands table id) (hlink : link ∈ entry.links) :
    ∃ below, table[link]? = some below ∧ below.parent = some id := by
  rcases List.mem_append.mp hlink with hlink | hlink
  · obtain ⟨node, -, hnode⟩ := h.payload.exists_of_mem hlink
    exact ⟨_, hnode, rfl⟩
  · obtain ⟨node, -, hnode⟩ := h.children.exists_of_mem hlink
    exact ⟨_, hnode, rfl⟩

namespace Schema

theorem arena_entryAt? (schema : Schema) (id : Nat) :
    schema.arena.entryAt? id = schema.entries[id]? :=
  List.getElem?_toArray

theorem arena_spot? (schema : Schema) :
    schema.arena.spot? = fun id => schema.entries[id]?.map Entry.spot := by
  funext id
  rw [Arena.spot?, arena_entryAt?]

theorem arena_leads {schema : Schema} {id : Nat} {entry : Entry}
    (h : entry.Stands schema.entries id) : entry.payload.Leads schema.arena entry.node.payload := by
  have hspots := h.payload.map_spot
  have hslot : entry.payload = Node.slot (id + 1) entry.node.payload :=
    congrArg Entry.payload h.eq_entry
  rw [hslot] at hspots ⊢
  rw [← arena_spot?] at hspots
  cases hpayload : entry.node.payload with
  | none => trivial
  | text text =>
    rw [hpayload] at hspots
    exact (List.cons.inj hspots).1
  | sequence elements =>
    rw [hpayload] at hspots
    exact hspots

/-- Every entry but the first is linked to by one entry only, its parent. -/
theorem exists_parent {schema : Schema} {id : Nat} {entry : Entry}
    (h : schema.arena.entryAt? id = some entry) (hid : 0 < id) :
    ∃ parent < id, entry.parent = some parent ∧ ∀ other above,
      schema.arena.entryAt? other = some above → (id ∈ above.links ↔ other = parent) := by
  rw [arena_entryAt?] at h
  obtain ⟨occurrence, hoccurrence, -⟩ := occurrence_of_entryAt? h
  rcases schema.hang_entries id entry occurrence h hoccurrence with
    ⟨-, hmem, -⟩ | ⟨parent, above, -, hlt, habove, -, hparent, hlink, -⟩
  · have := List.mem_singleton.mp hmem
    omega
  rw [Nat.zero_add] at hparent hlink
  refine ⟨parent, hlt, hparent, fun other above' habove' => ?_⟩
  rw [arena_entryAt?] at habove'
  -- whatever links to the entry is its parent, of which there is one
  constructor
  · intro hlink'
    obtain ⟨below, hbelow, hother⟩ :=
      (schema.nested_entries.stands habove').parent_of_mem_links hlink'
    rw [h, Option.some.injEq] at hbelow
    rw [← hbelow, hparent, Option.some.injEq] at hother
    exact hother.symm
  · rintro rfl
    rw [habove, Option.some.injEq] at habove'
    exact habove' ▸ hlink

theorem arena_keeps (schema : Schema) (hsite : schema.site = .root) :
    schema.arena.Keeps schema.root := by
  have hentries : schema.entries = schema.root.entries Site.root.placement none 0 := by
    rw [entries, hsite]
  constructor
  case spots =>
    rw [← Node.map_spot_entries .root none 0, ← hentries]
    rfl
  case files => exact (Node.countP_isFile_occurrences _ _).symm
  case rising =>
    intro id entry h
    rw [arena_entryAt?] at h
    rw [(schema.nested_entries.stands h).eq_entry]
    exact Node.pairwise_links _ _ _ _
  case payload =>
    intro id entry h
    rw [arena_entryAt?] at h
    exact arena_leads (schema.nested_entries.stands h)
  case children =>
    intro id entry h
    rw [arena_entryAt?] at h
    rw [arena_spot?]
    exact (schema.nested_entries.stands h).children.map_spot
  case top =>
    intro entry h
    rw [arena_entryAt?, hentries, Node.entries_eq, List.getElem?_cons_zero, Option.some.injEq] at h
    rw [← h]
    rfl
  case below =>
    intro id entry h hid
    exact exists_parent h hid

/-- **Exactly the well-formed trees are accepted, and kept as they are.** Otherwise the error is
that of the first violation. -/
theorem ofNode_faithful (root : Node) :
    ((∃ schema, ofNode root = .ok schema) ↔ root.WellFormed) ∧
    match ofNode root with
    | .ok schema =>
      schema.root = root ∧ Arena.build .root root = .ok schema.arena ∧ schema.arena.Keeps root
    | .error error => Arena.build .root root = .error error ∧ root.FirstViolation error := by
  have hiff : root.check .root = .ok () ↔ root.WellFormed := Node.check_root_eq_ok
  cases hcheck : root.check .root with
  | ok =>
    rw [ofNode, attachAt_of_ok hcheck]
    refine ⟨⟨fun _ => hiff.mp hcheck, fun _ => ⟨_, rfl⟩⟩, rfl, ?_, arena_keeps _ rfl⟩
    rw [Arena.build_eq, hcheck]
    rfl
  | error error =>
    rw [ofNode, attachAt_of_error hcheck]
    refine ⟨⟨nofun, fun h => ?_⟩, ?_, ?_⟩
    · cases hcheck.symm.trans (hiff.mpr h)
    · rw [Arena.build_eq, hcheck]
      rfl
    · rw [Node.check_eq, verdict_eq_error] at hcheck
      obtain ⟨before, occurrence, after, hoccurrences, hviolation, hbefore⟩ :=
        List.findSome?_eq_some_iff.mp hcheck
      exact ⟨before, occurrence, after, hoccurrences, hbefore, hviolation⟩

end Schema

end ByteLayout
