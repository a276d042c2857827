import ByteLayout.Schema.Check

/-!
# Schemas

A schema is a tree of nodes that has passed the check. The tree itself is what a pass walks. Beside
it stands the **table** of its entries, one for each node, numbered in pre-order with the payload of
a node before its children: `Schema.entries` lists them with their links, up and down.

`Schema.attach` puts the result of a `select` in the place of its entry, under the same rules as if
it had been declared there. Whether the entry lies in a file is found by following the links upward,
so only files of the same schema count: when the result of a `select` holds another `select`, that
one is looked at within the result.
-/

namespace ByteLayout

/-- A layout whose structure has been checked, at some site. -/
structure Schema where
  root : Node
  site : Site
  checked : root.check site = .ok ()

namespace Schema

/-- Checks a tree at a site. -/
def attachAt (site : Site) (node : Node) : Except Error Schema :=
  match h : node.check site with
  | .ok () => .ok ⟨node, site, h⟩
  | .error error => .error error

/-- Checks a whole tree. -/
def ofNode (node : Node) : Except Error Schema := attachAt .root node

end Schema

/-! ## Sizes -/

namespace Node

mutual

/-- The number of nodes, texts and elements included. -/
def size : Node → Nat
  | mk kind _ _ payload => 1 + sizePayload payload + sizeKind kind

def sizePayload : Payload → Nat
  | .none => 0
  | .text node => size node
  | .sequence elements => sizeAll elements

def sizeKind : Kind → Nat
  | .order _ children => sizeAll children
  | .directory _ children => sizeAll children
  | .file _ children => sizeAll children
  | .group children => sizeAll children
  | .select _ | .custom _ | .text _ | .int _ | .float _ => 0

def sizeAll : List Node → Nat
  | [] => 0
  | node :: rest => size node + sizeAll rest

end

mutual

/-- The number of file nodes. -/
def fileCount : Node → Nat
  | mk kind _ _ payload => filesInPayload payload + filesInKind kind

def filesInPayload : Payload → Nat
  | .none => 0
  | .text node => fileCount node
  | .sequence elements => filesInAll elements

def filesInKind : Kind → Nat
  | .file _ children => filesInAll children + 1
  | .order _ children => filesInAll children
  | .directory _ children => filesInAll children
  | .group children => filesInAll children
  | .select _ | .custom _ | .text _ | .int _ | .float _ => 0

def filesInAll : List Node → Nat
  | [] => 0
  | node :: rest => fileCount node + filesInAll rest

end

end Node

/-! ## Entries -/

/-- The payload of an entry, by the numbers of the nodes. -/
inductive Slot where
  | none
  | text (id : Nat)
  | sequence (ids : List Nat)
  deriving DecidableEq, Repr

/-- A node in the table of a schema, with its placement and its links. -/
structure Entry where
  node : Node
  placement : Placement
  parent : Option Nat
  payload : Slot
  children : List Nat

namespace Node

/-- The numbers of consecutive nodes, of which the first has the number `first`. -/
def numbers : Nat → List Node → List Nat
  | _, [] => []
  | first, node :: rest => first :: numbers (first + node.size) rest

/-- The links from a node to its payload, which begins at the number `first`. -/
def slot (first : Nat) : Payload → Slot
  | .none => .none
  | .text _ => .text first
  | .sequence elements => .sequence (numbers first elements)

mutual

/-- The entries of a tree whose root has the number `id`. -/
def entries (placement : Placement) (parent : Option Nat) (id : Nat) : Node → List Entry
  | mk kind name default payload =>
    let after := id + 1 + sizePayload payload
    { node := mk kind name default payload, placement, parent
      payload := slot (id + 1) payload
      children := numbers after kind.children }
      :: (entriesOfPayload id (id + 1) payload ++ entriesOfKind id after kind)

def entriesOfPayload (parent first : Nat) : Payload → List Entry
  | .none => []
  | .text node => entries .payload (some parent) first node
  | .sequence elements => entriesOfAll .element parent first elements

def entriesOfKind (parent first : Nat) : Kind → List Entry
  | .order _ children => entriesOfAll .child parent first children
  | .directory _ children => entriesOfAll .child parent first children
  | .file _ children => entriesOfAll .child parent first children
  | .group children => entriesOfAll .child parent first children
  | .select _ | .custom _ | .text _ | .int _ | .float _ => []

def entriesOfAll (placement : Placement) (parent first : Nat) : List Node → List Entry
  | [] => []
  | node :: rest =>
    entries placement (some parent) first node ++
      entriesOfAll placement parent (first + size node) rest

end

end Node

namespace Schema

/-- The number of entries. -/
def size (schema : Schema) : Nat := schema.root.size

/-- The number of declared files. Files in the results of selects do not count. -/
def fileCount (schema : Schema) : Nat := schema.root.fileCount

/-- Whether there is no entry, which is never so. -/
def isEmpty (schema : Schema) : Bool := schema.size == 0

/-- The site of the root among the entries, where no file of the schema lies above. -/
def rootSite (schema : Schema) : Site := ⟨schema.site.placement, false, schema.site.trail⟩

/-- The entries, in the order of their numbers. -/
def entries (schema : Schema) : List Entry :=
  schema.root.entries schema.site.placement none 0

/-- The entry with a number. -/
def entryAt? (schema : Schema) (id : Nat) : Option Entry := schema.entries[id]?

/-- The entries above the one with the number `id`, the nearest first. A parent comes before its
payload and its children. -/
def ancestors (schema : Schema) (id : Nat) : List Entry :=
  match (schema.entryAt? id).bind Entry.parent with
  | none => []
  | some parent =>
    if parent < id then (schema.entryAt? parent).toList ++ ancestors schema parent else []
termination_by id

end Schema

/-- The site of what replaces a `select`: its placement and files are those of the `select`, and
the trail consists of its label. -/
def Site.ofSelect (site : Site) (select : Node) : Site :=
  ⟨site.placement, site.inFile, [select.label]⟩

/-- Checks a node in the place of the entry with the number `id`. -/
def Schema.attach (schema : Schema) (id : Nat) (node : Node) : Option (Except Error Schema) :=
  (schema.entryAt? id).map fun entry =>
    let inFile := (schema.ancestors id).any fun above => above.node.kind.isFile
    attachAt ⟨entry.placement, inFile, [entry.node.label]⟩ node

end ByteLayout
