import ByteLayout.Schema

/-!
# Building the table of a schema

The check of a tree and the table of its entries come out of one run. Each node is checked by itself
and gets the next number; its entry is added without links, then its payload and its children are
added behind it, and at last the entry is linked to them. A violation ends the run, and nothing
remains of the table.
-/

namespace ByteLayout

/-- The entries added so far, and the number of files among them. -/
structure Arena where
  entries : Array Entry
  files : Nat

namespace Arena

def empty : Arena := ⟨#[], 0⟩

/-- Adds an entry. -/
def add (arena : Arena) (entry : Entry) : Arena :=
  ⟨arena.entries.push entry, arena.files + entry.node.kind.isFile.toNat⟩

/-- Links the entry with the number `id` to its payload and its children. -/
def link (arena : Arena) (id : Nat) (payload : Slot) (children : List Nat) : Arena :=
  { arena with
    entries := arena.entries.modify id fun entry => { entry with payload, children } }

mutual

/-- Adds a tree, and gives the number of its root. -/
def push (arena : Arena) (parent : Option Nat) (site : Site) : Node → Except Error (Nat × Arena)
  | .mk kind name default payload => do
    let node := Node.mk kind name default payload
    let id := arena.entries.size
    node.checkKind site
    let added := arena.add ⟨node, site.placement, parent, .none, []⟩
    node.checkPayload site
    let (slot, arena) ←
      pushPayload added id (site.below .payload node) (site.below .element node) payload
    let (children, arena) ← pushKind arena id (site.below .child node) kind
    return (id, arena.link id slot children)

/-- Adds a payload. -/
def pushPayload (arena : Arena) (parent : Nat) (text element : Site) :
    Payload → Except Error (Slot × Arena)
  | .none => return (.none, arena)
  | .text node => do
    let (id, arena) ← push arena (some parent) text node
    return (.text id, arena)
  | .sequence elements => do
    let (ids, arena) ← pushAll arena parent element elements
    return (.sequence ids, arena)

/-- Adds the children of a kind. -/
def pushKind (arena : Arena) (parent : Nat) (site : Site) :
    Kind → Except Error (List Nat × Arena)
  | .order _ children => pushAll arena parent site children
  | .directory _ children => pushAll arena parent site children
  | .file _ children => pushAll arena parent site children
  | .group children => pushAll arena parent site children
  | .select _ | .custom _ | .text _ | .int _ | .float _ => return ([], arena)

/-- Adds nodes one after the other. -/
def pushAll (arena : Arena) (parent : Nat) (site : Site) :
    List Node → Except Error (List Nat × Arena)
  | [] => return ([], arena)
  | node :: rest => do
    let (id, arena) ← push arena (some parent) site node
    let (ids, arena) ← pushAll arena parent site rest
    return (id :: ids, arena)

end

/-- The table of a tree at a site. -/
def build (site : Site) (node : Node) : Except Error Arena := do
  let (_, arena) ← push empty none site node
  return arena

end Arena

/-- The finished table of a schema. -/
def Schema.arena (schema : Schema) : Arena := ⟨schema.entries.toArray, schema.fileCount⟩

end ByteLayout
