import ByteLayout.Schema

/-!
# The nodes of a tree

What hangs below a node is a list of nodes in its payload and a list of children, so a function on
trees is known from what it does with these two lists; here are the equations of the sizes, of the
table and of the check, and the induction that goes with them (`Node.induct`; with what selects may
pick, `Node.inductChosen`).

`Node.occurrences` lists all nodes of a tree in the order in which they are declared, a node before
its payload and that before its children, each with its site. **Theorem (`Node.check_eq`).** The
check of a tree finds the first of these nodes that is wrong by itself.
-/

namespace ByteLayout

namespace Payload

/-- The nodes of a payload. -/
def nodes : Payload → List Node
  | none => []
  | text node => [node]
  | sequence elements => elements

/-- The placement of the nodes of a payload. -/
def placement : Payload → Placement
  | none => .payload
  | text _ => .payload
  | sequence _ => .element

end Payload

namespace Node

/-! ## Induction -/

section

variable {P : Node → Prop}

mutual

/-- Induction over a tree and the trees that its selects pick: what holds of a node if it holds of
those below it, and of all that it may pick, holds of all. -/
theorem inductChosen (node : ∀ node : Node, (∀ part ∈ node.payload.nodes, P part) →
    (∀ child ∈ node.kind.children, P child) →
    (∀ choose, node.kind = .select choose → ∀ context, P (choose context).value) → P node) :
    ∀ root : Node, P root
  | mk kind name default payload =>
    node (mk kind name default payload) (inductPayload node payload) (inductKind node kind)
      (inductSelect node kind)
termination_by structural root => root

theorem inductPayload (node : ∀ node : Node, (∀ part ∈ node.payload.nodes, P part) →
    (∀ child ∈ node.kind.children, P child) →
    (∀ choose, node.kind = .select choose → ∀ context, P (choose context).value) → P node) :
    ∀ payload : Payload, ∀ part ∈ payload.nodes, P part
  | .none => List.forall_mem_nil _
  | .text text => fun _ hpart => List.mem_singleton.mp hpart ▸ inductChosen node text
  | .sequence elements => inductAll node elements
termination_by structural payload => payload

theorem inductKind (node : ∀ node : Node, (∀ part ∈ node.payload.nodes, P part) →
    (∀ child ∈ node.kind.children, P child) →
    (∀ choose, node.kind = .select choose → ∀ context, P (choose context).value) → P node) :
    ∀ kind : Kind, ∀ child ∈ kind.children, P child
  | .order _ children => inductAll node children
  | .directory _ children => inductAll node children
  | .file _ children => inductAll node children
  | .group children => inductAll node children
  | .select _ => List.forall_mem_nil _
  | .custom _ => List.forall_mem_nil _
  | .text _ => List.forall_mem_nil _
  | .int _ => List.forall_mem_nil _
  | .float _ => List.forall_mem_nil _
termination_by structural kind => kind

theorem inductSelect (node : ∀ node : Node, (∀ part ∈ node.payload.nodes, P part) →
    (∀ child ∈ node.kind.children, P child) →
    (∀ choose, node.kind = .select choose → ∀ context, P (choose context).value) → P node) :
    ∀ kind : Kind, ∀ choose, kind = .select choose → ∀ context, P (choose context).value
  | .select picked => fun _ hchoose context =>
    Kind.select.inj hchoose ▸ inductNoted node (picked context)
  | .order _ _ => nofun
  | .directory _ _ => nofun
  | .file _ _ => nofun
  | .group _ => nofun
  | .custom _ => nofun
  | .text _ => nofun
  | .int _ => nofun
  | .float _ => nofun
termination_by structural kind => kind

theorem inductNoted (node : ∀ node : Node, (∀ part ∈ node.payload.nodes, P part) →
    (∀ child ∈ node.kind.children, P child) →
    (∀ choose, node.kind = .select choose → ∀ context, P (choose context).value) → P node) :
    ∀ chosen : Noted Node, P chosen.value
  | ⟨picked, _⟩ => inductChosen node picked
termination_by structural chosen => chosen

theorem inductAll (node : ∀ node : Node, (∀ part ∈ node.payload.nodes, P part) →
    (∀ child ∈ node.kind.children, P child) →
    (∀ choose, node.kind = .select choose → ∀ context, P (choose context).value) → P node) :
    ∀ nodes : List Node, ∀ part ∈ nodes, P part
  | [] => List.forall_mem_nil _
  | first :: rest => fun _ hpart => (List.mem_cons.mp hpart).elim (· ▸ inductChosen node first)
      (inductAll node rest _)
termination_by structural nodes => nodes

end

/-- Induction over a tree: what holds of a node if it holds of those below it holds of all. -/
theorem induct (node : ∀ node : Node, (∀ part ∈ node.payload.nodes, P part) →
    (∀ child ∈ node.kind.children, P child) → P node) (root : Node) : P root :=
  inductChosen (fun other hpayload hchildren _ => node other hpayload hchildren) root

end

/-! ## Sizes and entries -/

theorem size_eq (node : Node) :
    node.size = 1 + sizeAll node.payload.nodes + sizeAll node.kind.children := by
  obtain ⟨kind, name, default, payload⟩ := node
  have hpayload : sizePayload payload = sizeAll payload.nodes := by cases payload <;> rfl
  have hkind : sizeKind kind = sizeAll kind.children := by cases kind <;> rfl
  rw [size, hpayload, hkind]
  rfl

theorem fileCount_eq (node : Node) :
    node.fileCount = filesInAll node.payload.nodes + filesInAll node.kind.children +
      node.kind.isFile.toNat := by
  obtain ⟨kind, name, default, payload⟩ := node
  have hpayload : filesInPayload payload = filesInAll payload.nodes := by cases payload <;> rfl
  have hkind : filesInKind kind = filesInAll kind.children + kind.isFile.toNat := by
    cases kind <;> rfl
  rw [fileCount, hpayload, hkind, Nat.add_assoc]
  rfl

/-- The entry of a node with the number `id`. -/
def entry (placement : Placement) (parent : Option Nat) (id : Nat) (node : Node) : Entry where
  node := node
  placement := placement
  parent := parent
  payload := slot (id + 1) node.payload
  children := numbers (id + 1 + sizeAll node.payload.nodes) node.kind.children

theorem entries_eq (placement : Placement) (parent : Option Nat) (id : Nat) (node : Node) :
    node.entries placement parent id = node.entry placement parent id ::
      (entriesOfAll node.payload.placement id (id + 1) node.payload.nodes ++
        entriesOfAll .child id (id + 1 + sizeAll node.payload.nodes) node.kind.children) := by
  obtain ⟨kind, name, default, payload⟩ := node
  have hsize : sizePayload payload = sizeAll payload.nodes := by cases payload <;> rfl
  have hpayload : entriesOfPayload id (id + 1) payload =
      entriesOfAll payload.placement id (id + 1) payload.nodes := by
    cases payload with
    | text node => exact (List.append_nil _).symm
    | _ => rfl
  have hkind : entriesOfKind id (id + 1 + sizeAll payload.nodes) kind =
      entriesOfAll .child id (id + 1 + sizeAll payload.nodes) kind.children := by
    cases kind <;> rfl
  rw [entries, hpayload, hsize, hkind]
  simp only [entry, Node.payload, Node.kind]

/-! ## Occurrences -/

end Node

/-- A node of a tree at its site. -/
structure Occurrence where
  site : Site
  node : Node

namespace Node

mutual

/-- The nodes of a tree in the order of declaration. -/
def occurrences (site : Site) : Node → List Occurrence
  | mk kind name default payload =>
    let node := mk kind name default payload
    ⟨site, node⟩ ::
      (occurrencesInPayload (site.below payload.placement node) payload ++
        occurrencesInKind (site.below .child node) kind)

def occurrencesInPayload (site : Site) : Payload → List Occurrence
  | .none => []
  | .text node => occurrences site node
  | .sequence elements => occurrencesInAll site elements

def occurrencesInKind (site : Site) : Kind → List Occurrence
  | .order _ children => occurrencesInAll site children
  | .directory _ children => occurrencesInAll site children
  | .file _ children => occurrencesInAll site children
  | .group children => occurrencesInAll site children
  | .select _ | .custom _ | .text _ | .int _ | .float _ => []

def occurrencesInAll (site : Site) : List Node → List Occurrence
  | [] => []
  | node :: rest => occurrences site node ++ occurrencesInAll site rest

end

theorem occurrences_eq (site : Site) (node : Node) :
    node.occurrences site = ⟨site, node⟩ ::
      (occurrencesInAll (site.below node.payload.placement node) node.payload.nodes ++
        occurrencesInAll (site.below .child node) node.kind.children) := by
  obtain ⟨kind, name, default, payload⟩ := node
  have hpayload : ∀ site, occurrencesInPayload site payload =
      occurrencesInAll site payload.nodes := by
    intro site
    cases payload with
    | text node => exact (List.append_nil _).symm
    | _ => rfl
  have hkind : ∀ site, occurrencesInKind site kind = occurrencesInAll site kind.children := by
    intro site
    cases kind <;> rfl
  rw [occurrences, hpayload, hkind]
  rfl

/-! ## The first violation -/

/-- The violations of a node by itself, and between it and its payload. -/
def checkSelf (site : Site) (node : Node) : Except Error Unit :=
  (node.checkKind site).bind fun _ => node.checkPayload site

end Node

/-- The violation of a single node. -/
def Occurrence.violation? (occurrence : Occurrence) : Option Error :=
  match occurrence.node.checkSelf occurrence.site with
  | .ok () => none
  | .error error => some error

/-- A violation ends a check. -/
def verdict : Option Error → Except Error Unit
  | none => .ok ()
  | some error => .error error

theorem verdict_eq_ok {violation : Option Error} :
    verdict violation = .ok () ↔ violation = none := by
  cases violation with
  | none => exact ⟨fun _ => rfl, fun _ => rfl⟩
  | some error => exact ⟨nofun, nofun⟩

theorem verdict_eq_error {violation : Option Error} {error : Error} :
    verdict violation = .error error ↔ violation = some error := by
  cases violation with
  | none => exact ⟨nofun, nofun⟩
  | some other =>
    show Except.error other = _ ↔ _
    rw [Except.error.injEq, Option.some.injEq]

theorem verdict_or (first second : Option Error) :
    verdict (first.or second) = (verdict first).bind fun _ => verdict second := by
  cases first <;> rfl

theorem Occurrence.verdict_violation? (occurrence : Occurrence) :
    verdict occurrence.violation? = occurrence.node.checkSelf occurrence.site := by
  unfold violation?
  cases occurrence.node.checkSelf occurrence.site <;> rfl

namespace Node

theorem checkSelf_eq_ok {site : Site} {node : Node} : node.checkSelf site = .ok () ↔
    node.checkKind site = .ok () ∧ node.checkPayload site = .ok () := by
  unfold checkSelf
  cases node.checkKind site with
  | ok => exact ⟨fun h => ⟨rfl, h⟩, fun h => h.2⟩
  | error error => exact ⟨nofun, fun h => nomatch h.1⟩

theorem violation?_eq_none {site : Site} {node : Node} :
    Occurrence.violation? ⟨site, node⟩ = none ↔ node.checkSelf site = .ok () := by
  rw [← verdict_eq_ok, Occurrence.verdict_violation?]

theorem checkAll_singleton (site : Site) (node : Node) :
    checkAll site [node] = node.check site := by
  show (check site node).bind _ = _
  cases check site node <;> rfl

/-- A node is checked by itself, then its payload, then its children. -/
theorem check_eq_bind (site : Site) (node : Node) :
    node.check site = (node.checkSelf site).bind fun _ =>
      (checkAll (site.below node.payload.placement node) node.payload.nodes).bind fun _ =>
        checkAll (site.below .child node) node.kind.children := by
  obtain ⟨kind, name, default, payload⟩ := node
  have hbelow : ∀ text element, checkBelow text element payload =
      checkAll (match payload with | .sequence _ => element | _ => text) payload.nodes := by
    intro text element
    cases payload with
    | text node => exact (checkAll_singleton text node).symm
    | _ => rfl
  have hkind : ∀ site, checkKindBelow site kind = checkAll site kind.children := by
    intro site
    cases kind <;> rfl
  rw [check, hbelow, hkind, checkSelf]
  cases checkKind site (mk kind name default payload) with
  | error error => rfl
  | ok => cases payload <;> rfl

theorem checkAll_eq {nodes : List Node} (h : ∀ node ∈ nodes, ∀ site : Site,
      node.check site = verdict ((node.occurrences site).findSome? Occurrence.violation?))
    (site : Site) : checkAll site nodes =
      verdict ((occurrencesInAll site nodes).findSome? Occurrence.violation?) := by
  induction nodes with
  | nil => rfl
  | cons node rest ih =>
    rw [occurrencesInAll, List.findSome?_append, verdict_or, ← h node List.mem_cons_self,
      ← ih fun other hother => h other (List.mem_cons_of_mem _ hother)]
    rfl

/-- **The check finds the first violation in the order of declaration.** -/
theorem check_eq (site : Site) (node : Node) : node.check site =
    verdict ((node.occurrences site).findSome? Occurrence.violation?) := by
  induction node using induct generalizing site with
  | node node hpayload hchildren =>
  have hfirst : (node.occurrences site).findSome? Occurrence.violation? =
      (Occurrence.violation? ⟨site, node⟩).or
        (((occurrencesInAll (site.below node.payload.placement node) node.payload.nodes).findSome?
            Occurrence.violation?).or
          ((occurrencesInAll (site.below .child node) node.kind.children).findSome?
            Occurrence.violation?)) := by
    rw [occurrences_eq, ← List.findSome?_append, List.findSome?_cons]
    cases Occurrence.violation? ⟨site, node⟩ <;> rfl
  rw [check_eq_bind, hfirst, verdict_or, verdict_or, Occurrence.verdict_violation?,
    ← checkAll_eq hpayload, ← checkAll_eq hchildren]

end Node

namespace Schema

variable {site : Site} {node : Node} {schema : Schema}

theorem attachAt_of_ok (h : node.check site = .ok ()) :
    attachAt site node = .ok ⟨node, site, h⟩ := by
  unfold attachAt
  split
  · rfl
  · next error herror =>
    rw [h] at herror
    cases herror

theorem attachAt_of_error {error : Error} (h : node.check site = .error error) :
    attachAt site node = .error error := by
  unfold attachAt
  split
  · next hok =>
    rw [h] at hok
    cases hok
  · next other hother =>
    rw [h, Except.error.injEq] at hother
    rw [hother]

theorem of_attachAt (h : attachAt site node = .ok schema) :
    schema.root = node ∧ schema.site = site := by
  unfold attachAt at h
  split at h
  · cases h
    exact ⟨rfl, rfl⟩
  · cases h

end Schema

end ByteLayout
