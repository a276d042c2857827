import ByteLayout.Proofs.Tree
import Mathlib.Data.List.Forall2

/-!
# The table of a tree

The entries of a tree are one for each of its nodes, in the order of declaration, and each entry
heads the entries of its own subtree (`Node.nested_entries`). So the links of an entry lead to the
entries of the nodes that hang below its own (`Node.listed_entries`), and the parent of an entry is
the one that links to it (`Node.hang_entries`), at whose site it lies.
-/

namespace ByteLayout

/-! ## Links -/

/-- The numbers in a slot. -/
def Slot.ids : Slot → List Nat
  | none => []
  | text id => [id]
  | sequence ids => ids

/-- The numbers of what hangs below an entry, in order. -/
def Entry.links (entry : Entry) : List Nat := entry.payload.ids ++ entry.children

/-- A node and its placement. -/
def Entry.spot (entry : Entry) : Placement × Node := (entry.placement, entry.node)

/-- A node and its placement. -/
def Occurrence.spot (occurrence : Occurrence) : Placement × Node :=
  (occurrence.site.placement, occurrence.node)

namespace Node

theorem size_pos (node : Node) : 0 < node.size := by
  rw [size_eq]
  omega

@[simp] theorem ids_slot (first : Nat) (payload : Payload) :
    (slot first payload).ids = numbers first payload.nodes := by
  cases payload <;> rfl

theorem numbers_append (first : Nat) (front back : List Node) :
    numbers first (front ++ back) =
      numbers first front ++ numbers (first + sizeAll front) back := by
  induction front generalizing first with
  | nil => rfl
  | cons node rest ih =>
    rw [List.cons_append, numbers, ih, numbers, sizeAll, List.cons_append, Nat.add_assoc]

theorem links_entry (placement : Placement) (parent : Option Nat) (id : Nat) (node : Node) :
    (node.entry placement parent id).links =
      numbers (id + 1) (node.payload.nodes ++ node.kind.children) := by
  rw [Entry.links, entry, ids_slot, numbers_append]

theorem le_of_mem_numbers {first id : Nat} {nodes : List Node} (h : id ∈ numbers first nodes) :
    first ≤ id := by
  induction nodes generalizing first with
  | nil => cases h
  | cons node rest ih =>
    rcases List.mem_cons.mp h with rfl | h
    · exact Nat.le_refl _
    · exact Nat.le_trans (Nat.le_add_right _ _) (ih h)

/-- Numbers rise. -/
theorem pairwise_numbers (first : Nat) (nodes : List Node) :
    (numbers first nodes).Pairwise (· < ·) := by
  induction nodes generalizing first with
  | nil => exact List.Pairwise.nil
  | cons node rest ih =>
    refine List.Pairwise.cons (fun id hid => ?_) (ih _)
    have := le_of_mem_numbers hid
    have := node.size_pos
    omega

theorem pairwise_links (placement : Placement) (parent : Option Nat) (id : Nat) (node : Node) :
    (id :: (node.entry placement parent id).links).Pairwise (· < ·) := by
  rw [links_entry]
  exact List.Pairwise.cons (fun _ hid => le_of_mem_numbers hid) (pairwise_numbers _ _)

/-! ## One entry for each node -/

/-- The entries of a tree are its nodes in the order of declaration. -/
theorem map_spot_entriesOfAll {nodes : List Node} (h : ∀ node ∈ nodes, ∀ site parent id,
      (node.entries site.placement parent id).map Entry.spot =
        (node.occurrences site).map Occurrence.spot) (site : Site) (parent first : Nat) :
    (entriesOfAll site.placement parent first nodes).map Entry.spot =
      (occurrencesInAll site nodes).map Occurrence.spot := by
  induction nodes generalizing first with
  | nil => rfl
  | cons node rest ih =>
    rw [entriesOfAll, occurrencesInAll, List.map_append, List.map_append,
      h node List.mem_cons_self, ih fun other hother => h other (List.mem_cons_of_mem _ hother)]

theorem map_spot_entries (site : Site) (parent : Option Nat) (id : Nat) (node : Node) :
    (node.entries site.placement parent id).map Entry.spot =
      (node.occurrences site).map Occurrence.spot := by
  induction node using induct generalizing site parent id with
  | node node hpayload hchildren =>
  rw [entries_eq, occurrences_eq, List.map_cons, List.map_cons, List.map_append, List.map_append]
  have hparts := map_spot_entriesOfAll hpayload (site.below node.payload.placement node) id (id + 1)
  have hbelow := map_spot_entriesOfAll hchildren (site.below .child node) id
    (id + 1 + sizeAll node.payload.nodes)
  rw [show (site.below node.payload.placement node).placement = node.payload.placement from rfl]
    at hparts
  rw [show (site.below .child node).placement = .child from rfl] at hbelow
  rw [hparts, hbelow]
  rfl

theorem length_occurrencesInAll {nodes : List Node} (h : ∀ node ∈ nodes, ∀ site,
      (node.occurrences site).length = node.size) (site : Site) :
    (occurrencesInAll site nodes).length = sizeAll nodes := by
  induction nodes with
  | nil => rfl
  | cons node rest ih =>
    rw [occurrencesInAll, List.length_append, h node List.mem_cons_self, sizeAll,
      ih fun other hother => h other (List.mem_cons_of_mem _ hother)]

@[simp] theorem length_occurrences (site : Site) (node : Node) :
    (node.occurrences site).length = node.size := by
  induction node using induct generalizing site with
  | node node hpayload hchildren =>
  rw [occurrences_eq, List.length_cons, List.length_append, length_occurrencesInAll hpayload,
    length_occurrencesInAll hchildren, size_eq]
  omega

@[simp] theorem length_entries (placement : Placement) (parent : Option Nat) (id : Nat)
    (node : Node) : (node.entries placement parent id).length = node.size := by
  have h := congrArg List.length (map_spot_entries ⟨placement, false, []⟩ parent id node)
  rwa [List.length_map, List.length_map, length_occurrences] at h

@[simp] theorem length_entriesOfAll (placement : Placement) (parent first : Nat)
    (nodes : List Node) : (entriesOfAll placement parent first nodes).length = sizeAll nodes := by
  induction nodes generalizing first with
  | nil => rfl
  | cons node rest ih => rw [entriesOfAll, List.length_append, ih, length_entries, sizeAll]

/-- The files of a tree, counted one by one. -/
theorem countP_isFile_occurrencesInAll {nodes : List Node} (h : ∀ node ∈ nodes, ∀ site,
      (node.occurrences site).countP (fun occurrence => occurrence.node.kind.isFile) =
        node.fileCount) (site : Site) :
    (occurrencesInAll site nodes).countP (fun occurrence => occurrence.node.kind.isFile) =
      filesInAll nodes := by
  induction nodes with
  | nil => rfl
  | cons node rest ih =>
    rw [occurrencesInAll, List.countP_append, h node List.mem_cons_self, filesInAll,
      ih fun other hother => h other (List.mem_cons_of_mem _ hother)]

theorem countP_isFile_occurrences (site : Site) (node : Node) :
    (node.occurrences site).countP (fun occurrence => occurrence.node.kind.isFile) =
      node.fileCount := by
  induction node using induct generalizing site with
  | node node hpayload hchildren =>
  rw [occurrences_eq, List.countP_cons, List.countP_append,
    countP_isFile_occurrencesInAll hpayload, countP_isFile_occurrencesInAll hchildren,
    fileCount_eq]
  cases node.kind.isFile <;> rfl

end Node

/-! ## Subtrees in a table -/

/-- Whether each entry heads the entries of its subtree; the first has the number `first`. -/
def Nested (first : Nat) (entries : List Entry) : Prop :=
  ∀ k entry, entries[k]? = some entry →
    entry.node.entries entry.placement entry.parent (first + k) <+: entries.drop k

theorem Nested.append {first : Nat} {front back : List Entry} (hfront : Nested first front)
    (hback : Nested (first + front.length) back) : Nested first (front ++ back) := by
  intro k entry hentry
  by_cases hk : k < front.length
  · rw [List.getElem?_append_left hk] at hentry
    rw [List.drop_append_of_le_length (Nat.le_of_lt hk)]
    exact (hfront k entry hentry).trans (List.prefix_append _ _)
  · have hle := Nat.le_of_not_lt hk
    rw [List.getElem?_append_right hle] at hentry
    have h := hback _ entry hentry
    rw [Nat.add_assoc, Nat.add_sub_cancel' hle] at h
    rwa [List.drop_append, List.drop_eq_nil_of_le hle, List.nil_append]

/-- Whether nodes stand in a table under some numbers, hanging below the entry `parent`. -/
def Listed (table : List Entry) (placement : Placement) (parent : Nat) (ids : List Nat)
    (nodes : List Node) : Prop :=
  List.Forall₂ (fun id node => table[id]? = some (node.entry placement (some parent) id)) ids nodes

theorem Listed.exists_of_mem {table : List Entry} {placement : Placement} {parent : Nat}
    {ids : List Nat} {nodes : List Node} (h : Listed table placement parent ids nodes) {id : Nat}
    (hid : id ∈ ids) :
    ∃ node ∈ nodes, table[id]? = some (node.entry placement (some parent) id) := by
  induction h with
  | nil => cases hid
  | @cons first node ids nodes hentry _ ih =>
    rcases List.mem_cons.mp hid with rfl | hid
    · exact ⟨node, List.mem_cons_self, hentry⟩
    · obtain ⟨other, hother, hlisted⟩ := ih hid
      exact ⟨other, List.mem_cons_of_mem _ hother, hlisted⟩

namespace Node

theorem getElem?_of_prefix_drop {table : List Entry} {placement : Placement} {parent : Option Nat}
    {id : Nat} {node : Node} (h : node.entries placement parent id <+: table.drop id) :
    table[id]? = some (node.entry placement parent id) := by
  obtain ⟨rest, hrest⟩ := h
  rw [← Nat.add_zero id, ← List.getElem?_drop, ← hrest, entries_eq]
  rfl

/-- Where the entries of nodes stand one after the other, the nodes are listed. -/
theorem listed_of_prefix_drop {table : List Entry} {placement : Placement} {parent first : Nat}
    {nodes : List Node} (h : entriesOfAll placement parent first nodes <+: table.drop first) :
    Listed table placement parent (numbers first nodes) nodes := by
  induction nodes generalizing first with
  | nil => exact .nil
  | cons node rest ih =>
    rw [entriesOfAll] at h
    refine .cons (getElem?_of_prefix_drop ((List.prefix_append _ _).trans h)) (ih ?_)
    obtain ⟨tail, htail⟩ := h
    refine ⟨tail, ?_⟩
    rw [← List.drop_drop, ← htail, List.append_assoc, List.drop_left' (length_entries ..)]

theorem nested_entriesOfAll {nodes : List Node} (h : ∀ node ∈ nodes, ∀ placement parent id,
      Nested id (node.entries placement parent id)) (placement : Placement) (parent first : Nat) :
    Nested first (entriesOfAll placement parent first nodes) := by
  induction nodes generalizing first with
  | nil => nofun
  | cons node rest ih =>
    rw [entriesOfAll]
    refine (h node List.mem_cons_self _ _ _).append ?_
    rw [length_entries]
    exact ih (fun other hother => h other (List.mem_cons_of_mem _ hother)) _

/-- **Each entry of a tree heads the entries of its subtree.** -/
theorem nested_entries (placement : Placement) (parent : Option Nat) (id : Nat) (node : Node) :
    Nested id (node.entries placement parent id) := by
  induction node using induct generalizing placement parent id with
  | node node hpayload hchildren =>
  rw [entries_eq]
  intro k entry hentry
  cases k with
  | zero =>
    rw [List.getElem?_cons_zero, Option.some.injEq] at hentry
    subst hentry
    show node.entries placement parent id <+: _
    rw [entries_eq]
    exact List.prefix_rfl
  | succ k =>
    have hparts := nested_entriesOfAll hpayload node.payload.placement id (id + 1)
    have hbelow := nested_entriesOfAll hchildren .child id (id + 1 + sizeAll node.payload.nodes)
    rw [← length_entriesOfAll node.payload.placement id (id + 1)] at hbelow
    have hboth := hparts.append hbelow
    rw [length_entriesOfAll] at hboth
    rw [List.getElem?_cons_succ] at hentry
    rw [List.drop_succ_cons, Nat.add_comm k 1, ← Nat.add_assoc]
    exact hboth k entry hentry

end Node

/-! ## Entries of a whole table -/

/-- The links of an entry lead to what hangs below its node. -/
structure Entry.Stands (table : List Entry) (id : Nat) (entry : Entry) : Prop where
  eq_entry : entry = entry.node.entry entry.placement entry.parent id
  payload : Listed table entry.node.payload.placement id entry.payload.ids
    entry.node.payload.nodes
  children : Listed table .child id entry.children entry.node.kind.children

theorem Nested.stands {table : List Entry} (h : Nested 0 table) {id : Nat} {entry : Entry}
    (hentry : table[id]? = some entry) : entry.Stands table id := by
  have hprefix := h id entry hentry
  rw [Nat.zero_add] at hprefix
  have heq : entry = entry.node.entry entry.placement entry.parent id := by
    have := Node.getElem?_of_prefix_drop hprefix
    rwa [hentry, Option.some.injEq] at this
  rw [Node.entries_eq] at hprefix
  obtain ⟨rest, hrest⟩ := hprefix
  have hbelow : table.drop (id + 1) =
      Node.entriesOfAll entry.node.payload.placement id (id + 1) entry.node.payload.nodes ++
        (Node.entriesOfAll .child id (id + 1 + Node.sizeAll entry.node.payload.nodes)
          entry.node.kind.children ++ rest) := by
    rw [← List.drop_drop, ← hrest, List.cons_append, List.drop_succ_cons, List.drop_zero,
      List.append_assoc]
  refine ⟨heq, ?_, ?_⟩
  · rw [heq]
    show Listed table entry.node.payload.placement id
      (Node.slot (id + 1) entry.node.payload).ids entry.node.payload.nodes
    rw [Node.ids_slot]
    exact Node.listed_of_prefix_drop ⟨_, hbelow.symm⟩
  · rw [heq]
    refine Node.listed_of_prefix_drop ⟨rest, ?_⟩
    rw [← List.drop_drop, hbelow, List.drop_left' (Node.length_entriesOfAll ..)]

/-! ## Parents -/

/-- How entries and their occurrences hang together: those with the numbers `roots` below `parent`,
at the site that `placed` gives to their placement, all others below an earlier one, which links to
them. The first has the number `first`. -/
def Hang (first : Nat) (parent : Option Nat) (placed : Placement → Site) (roots : List Nat)
    (entries : List Entry) (occurrences : List Occurrence) : Prop :=
  ∀ k entry occurrence, entries[k]? = some entry → occurrences[k]? = some occurrence →
    (entry.parent = parent ∧ first + k ∈ roots ∧ occurrence.site = placed entry.placement) ∨
    ∃ k' entry' occurrence', k' < k ∧ entries[k']? = some entry' ∧
      occurrences[k']? = some occurrence' ∧ entry.parent = some (first + k') ∧
      first + k ∈ entry'.links ∧
      occurrence.site = occurrence'.site.below entry.placement occurrence'.node

theorem Hang.append {first : Nat} {parent : Option Nat} {placed : Placement → Site}
    {roots roots' : List Nat} {entries entries' : List Entry}
    {occurrences occurrences' : List Occurrence}
    (hlength : entries.length = occurrences.length)
    (hfront : Hang first parent placed roots entries occurrences)
    (hback : Hang (first + entries.length) parent placed roots' entries' occurrences') :
    Hang first parent placed (roots ++ roots') (entries ++ entries')
      (occurrences ++ occurrences') := by
  intro k entry occurrence hentry hoccurrence
  by_cases hk : k < entries.length
  · rw [List.getElem?_append_left hk] at hentry
    rw [List.getElem?_append_left (hlength ▸ hk)] at hoccurrence
    rcases hfront k entry occurrence hentry hoccurrence with
      ⟨hparent, hroot, hsite⟩ | ⟨k', entry', occurrence', hk', hentry', hoccurrence', h⟩
    · exact .inl ⟨hparent, List.mem_append_left _ hroot, hsite⟩
    · refine .inr ⟨k', entry', occurrence', hk', ?_, ?_, h⟩
      · rw [List.getElem?_append_left (Nat.lt_trans hk' hk), hentry']
      · rw [List.getElem?_append_left (hlength ▸ Nat.lt_trans hk' hk), hoccurrence']
  · have hle := Nat.le_of_not_lt hk
    rw [List.getElem?_append_right hle] at hentry
    rw [List.getElem?_append_right (hlength ▸ hle), ← hlength] at hoccurrence
    have hshift : first + entries.length + (k - entries.length) = first + k := by omega
    rcases hback _ entry occurrence hentry hoccurrence with
      ⟨hparent, hroot, hsite⟩ |
        ⟨k', entry', occurrence', hk', hentry', hoccurrence', hparent, hlink, hsite⟩
    · rw [hshift] at hroot
      exact .inl ⟨hparent, List.mem_append_right _ hroot, hsite⟩
    · rw [hshift] at hlink
      rw [Nat.add_assoc] at hparent
      refine .inr
        ⟨entries.length + k', entry', occurrence', by omega, ?_, ?_, hparent, hlink, hsite⟩
      · rw [List.getElem?_append_right (Nat.le_add_right _ _), Nat.add_sub_cancel_left, hentry']
      · rw [hlength, List.getElem?_append_right (Nat.le_add_right _ _), Nat.add_sub_cancel_left,
          hoccurrence']

namespace Node

theorem hang_entriesOfAll {nodes : List Node} {placed : Placement → Site}
    (h : ∀ node ∈ nodes, ∀ site parent id, placed site.placement = site →
      Hang id parent placed [id] (node.entries site.placement parent id) (node.occurrences site))
    {site : Site} (hsite : placed site.placement = site) (parent first : Nat) :
    Hang first (some parent) placed (numbers first nodes)
      (entriesOfAll site.placement parent first nodes) (occurrencesInAll site nodes) := by
  induction nodes generalizing first with
  | nil => nofun
  | cons node rest ih =>
    rw [entriesOfAll, occurrencesInAll, numbers]
    refine Hang.append (by simp) (h node List.mem_cons_self _ _ _ hsite) ?_
    rw [length_entries]
    exact ih (fun other hother => h other (List.mem_cons_of_mem _ hother)) _

/-- **Every entry but the first hangs below the one that links to it.** -/
theorem hang_entries {placed : Placement → Site} {site : Site}
    (hsite : placed site.placement = site) (parent : Option Nat) (id : Nat) (node : Node) :
    Hang id parent placed [id] (node.entries site.placement parent id) (node.occurrences site) := by
  induction node using induct generalizing placed site parent id with
  | node node hpayload hchildren =>
  rw [entries_eq, occurrences_eq]
  intro k entry occurrence hentry hoccurrence
  cases k with
  | zero =>
    rw [List.getElem?_cons_zero, Option.some.injEq] at hentry hoccurrence
    subst hentry hoccurrence
    exact .inl ⟨rfl, List.mem_singleton.mpr rfl, hsite.symm⟩
  | succ k =>
    rw [List.getElem?_cons_succ] at hentry hoccurrence
    -- the payload and the children hang directly below this node, at the sites below it
    have hhang : Hang (id + 1) (some id) (fun placement => site.below placement node)
        (numbers (id + 1) (node.payload.nodes ++ node.kind.children))
        (entriesOfAll node.payload.placement id (id + 1) node.payload.nodes ++
          entriesOfAll .child id (id + 1 + sizeAll node.payload.nodes) node.kind.children)
        (occurrencesInAll (site.below node.payload.placement node) node.payload.nodes ++
          occurrencesInAll (site.below .child node) node.kind.children) := by
      rw [numbers_append]
      refine Hang.append ?_ ?_ ?_
      · rw [length_entriesOfAll, length_occurrencesInAll fun _ _ _ => length_occurrences ..]
      · have hsite :
            (site.below node.payload.placement node).placement = node.payload.placement := rfl
        rw [← hsite]
        exact hang_entriesOfAll (fun part hpart _ _ _ h => hpayload part hpart h _ _) rfl id
          (id + 1)
      · have hsite : (site.below .child node).placement = .child := rfl
        rw [length_entriesOfAll, ← hsite]
        exact hang_entriesOfAll (fun child hchild _ _ _ h => hchildren child hchild h _ _) rfl id _
    have hshift : id + 1 + k = id + (k + 1) := by omega
    rcases hhang k entry occurrence hentry hoccurrence with
      ⟨hparent, hroot, hplaced⟩ |
        ⟨k', entry', occurrence', hk', hentry', hoccurrence', hparent, hlink, hplaced⟩
    · refine .inr ⟨0, node.entry site.placement parent id, ⟨site, node⟩, Nat.succ_pos k, rfl, rfl,
        hparent, ?_, hplaced⟩
      rw [links_entry, ← hshift]
      exact hroot
    · rw [hshift] at hlink
      rw [Nat.add_assoc, Nat.add_comm 1 k'] at hparent
      exact .inr ⟨k' + 1, entry', occurrence', Nat.succ_lt_succ hk', hentry', hoccurrence',
        hparent, hlink, hplaced⟩

end Node

/-! ## The table of a schema -/

namespace Schema

variable {schema : Schema} {id : Nat} {entry : Entry}

theorem nested_entries (schema : Schema) : Nested 0 schema.entries :=
  Node.nested_entries _ _ _ _

/-- The entries and the occurrences of a schema have the same nodes under the same numbers. -/
theorem map_spot_entryAt? (schema : Schema) (id : Nat) : (schema.entryAt? id).map Entry.spot =
    ((schema.root.occurrences schema.rootSite)[id]?).map Occurrence.spot := by
  rw [entryAt?, ← List.getElem?_map, ← List.getElem?_map]
  exact congrArg (·[id]?) (Node.map_spot_entries schema.rootSite none 0 schema.root)

theorem occurrence_of_entryAt? (h : schema.entryAt? id = some entry) :
    ∃ occurrence, (schema.root.occurrences schema.rootSite)[id]? = some occurrence ∧
      occurrence.site.placement = entry.placement ∧ occurrence.node = entry.node := by
  have hspot := schema.map_spot_entryAt? id
  rw [h] at hspot
  obtain ⟨occurrence, hoccurrence, hspot⟩ := Option.map_eq_some_iff.mp hspot.symm
  obtain ⟨hplacement, hnode⟩ := Prod.mk.inj hspot
  exact ⟨occurrence, hoccurrence, hplacement, hnode⟩

theorem entryAt?_of_occurrence {occurrence : Occurrence}
    (h : (schema.root.occurrences schema.rootSite)[id]? = some occurrence) :
    ∃ entry, schema.entryAt? id = some entry ∧ entry.placement = occurrence.site.placement ∧
      entry.node = occurrence.node := by
  have hspot := schema.map_spot_entryAt? id
  rw [h] at hspot
  obtain ⟨entry, hentry, hspot⟩ := Option.map_eq_some_iff.mp hspot
  obtain ⟨hplacement, hnode⟩ := Prod.mk.inj hspot
  exact ⟨entry, hentry, hplacement, hnode⟩

theorem hang_entries (schema : Schema) :
    Hang 0 none (fun _ => schema.rootSite) [0] schema.entries
      (schema.root.occurrences schema.rootSite) := by
  have hsite : schema.rootSite.placement = schema.site.placement := rfl
  rw [entries, ← hsite]
  exact Node.hang_entries rfl none 0 schema.root

/-- The entry above another is the one with the number of its parent. -/
theorem occurrence_of_parent {occurrence : Occurrence} {parent : Nat}
    (hentry : schema.entryAt? id = some entry) (hparent : entry.parent = some parent)
    (hoccurrence : (schema.root.occurrences schema.rootSite)[id]? = some occurrence) :
    parent < id ∧ ∃ above, (schema.root.occurrences schema.rootSite)[parent]? = some above ∧
      occurrence.site = above.site.below entry.placement above.node := by
  rcases schema.hang_entries id entry occurrence hentry hoccurrence with
    ⟨hnone, -, -⟩ | ⟨parent', above, occurrence', hlt, habove, hoccurrence', hparent', -, hsite⟩
  · rw [hparent] at hnone
    cases hnone
  · rw [hparent', Nat.zero_add, Option.some.injEq] at hparent
    subst hparent
    exact ⟨hlt, occurrence', hoccurrence', hsite⟩

/-- **The links upward know of the same files as the way down.** -/
theorem any_isFile_ancestors {occurrence : Occurrence} (hentry : schema.entryAt? id = some entry)
    (hoccurrence : (schema.root.occurrences schema.rootSite)[id]? = some occurrence) :
    ((schema.ancestors id).any fun above => above.node.kind.isFile) = occurrence.site.inFile := by
  induction id using Nat.strongRecOn generalizing entry occurrence with
  | ind id ih =>
  rw [ancestors, hentry, Option.bind_some]
  cases hparent : entry.parent with
  | none =>
    rcases schema.hang_entries id entry occurrence hentry hoccurrence with
      ⟨-, -, hsite⟩ | ⟨_, _, _, _, _, _, hparent', -, -⟩
    · rw [hsite]
      rfl
    · rw [hparent] at hparent'
      cases hparent'
  | some parent =>
    obtain ⟨hlt, above, habove, hsite⟩ := occurrence_of_parent hentry hparent hoccurrence
    obtain ⟨entry', hentry', -, hnode⟩ := entryAt?_of_occurrence habove
    dsimp only
    rw [if_pos hlt, hentry', Option.toList_some, List.singleton_append, List.any_cons,
      ih parent hlt hentry' habove, Bool.or_comm, hnode, hsite]
    rfl

end Schema

end ByteLayout
