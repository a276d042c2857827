import ByteLayout.Node
import ByteLayout.Path

/-!
# Checking a layout

`Node.check` walks a tree once and finds its first violation in declaration order: of a node its own
first, then those of its payload, then those of its children. What it needs to know of the
surroundings of a node is its `Site`.

The rules: a field has a name unless it is an element of a sequence; a text is the payload of an
unsigned integer, and occurs nowhere else; only integers carry payloads; a sequence has elements;
and a file lies in no other file.
-/

namespace ByteLayout

/-- How a node is attached to the one above it. -/
inductive Placement where
  | root
  | child
  /-- Directly in the element list of a sequence. -/
  | element
  /-- The text of an integer. -/
  | payload
  deriving DecidableEq, Repr

/-- What surrounds a node: its placement, whether a file lies above it, and the trail down to it:
the segments of the nodes above, the nearest first. -/
structure Site where
  placement : Placement
  inFile : Bool
  trail : List String

namespace Site

/-- The site of the root of a whole layout. -/
def root : Site := ⟨.root, false, []⟩

/-- The path of a node at a site. -/
def path (site : Site) (node : Node) : String :=
  (node.segment :: site.trail).foldr (fun segment path => Path.push path segment) ""

/-- The site of the payload or the children of a node. -/
def below (site : Site) (placement : Placement) (node : Node) : Site :=
  ⟨placement, site.inFile || node.kind.isFile, node.segment :: site.trail⟩

end Site

namespace Node

/-- The violations of a node by itself. -/
def checkKind (site : Site) (node : Node) : Except Error Unit :=
  if node.kind.isField && node.name.isNone && site.placement != .element then
    .error (.missingName node.kind.label (site.path node))
  else if node.kind.isText && site.placement != .payload then
    .error (.misplacedString node.kind.label (site.path node))
  else if node.kind.isFile && site.inFile then .error (.nestedFile (site.path node))
  else .ok ()

/-- The violations between a node and its payload. -/
def checkPayload (site : Site) (node : Node) : Except Error Unit :=
  match node.payload with
  | .none => .ok ()
  | .text text =>
    match node.kind with
    | .int kind =>
      if !text.kind.isText then
        .error (.invalidPayload node.kind.label text.kind.label (site.path node))
      else if !kind.isUnsigned then
        .error (.misplacedString text.kind.label (site.path node))
      else .ok ()
    | _ => .error (.invalidPayload node.kind.label "string" (site.path node))
  | .sequence elements =>
    match node.kind with
    | .int _ => if elements.isEmpty then .error (.emptySequence (site.path node)) else .ok ()
    | _ => .error (.invalidPayload node.kind.label "sequence" (site.path node))

mutual

/-- The first violation in a tree. -/
def check (site : Site) : Node → Except Error Unit
  | mk kind name default payload => do
    let node := mk kind name default payload
    checkKind site node
    checkPayload site node
    checkBelow (site.below .payload node) (site.below .element node) payload
    checkKindBelow (site.below .child node) kind

/-- The first violation in a payload. -/
def checkBelow (text element : Site) : Payload → Except Error Unit
  | .none => .ok ()
  | .text node => check text node
  | .sequence elements => checkAll element elements

/-- The first violation in the children of a kind. -/
def checkKindBelow (site : Site) : Kind → Except Error Unit
  | .order _ children => checkAll site children
  | .directory _ children => checkAll site children
  | .file _ children => checkAll site children
  | .group children => checkAll site children
  | .select _ | .custom _ | .text _ | .int _ | .float _ => .ok ()

/-- The first violation in a list of nodes. -/
def checkAll (site : Site) : List Node → Except Error Unit
  | [] => .ok ()
  | node :: rest => do
    check site node
    checkAll site rest

end

end Node

end ByteLayout
