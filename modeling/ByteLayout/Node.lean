import ByteLayout.Codec
import ByteLayout.Text.Encoding

/-!
# Nodes

A layout is a tree of nodes. A **field** is an integer, a float or a custom node; an integer may
carry a payload, which makes it the byte length of a string or the count of a sequence. The other
nodes arrange fields: byte orders, directories, files and groups hold children, and a `select` picks
a node during the pass, from the values seen so far.

A tree is built freely and checked as a whole when a schema is made of it.
-/

namespace ByteLayout

mutual

/-- One unit of a layout. -/
inductive Node where
  | mk (kind : Kind) (name : Option String) (default : Option Value) (payload : Payload)

/-- What a node describes. -/
inductive Kind where
  /-- The byte order of everything below. -/
  | order (order : ByteOrder) (children : List Node)
  /-- A directory, relative to the enclosing one. -/
  | directory (path : String) (children : List Node)
  /-- One output or input stream. -/
  | file (path : String) (children : List Node)
  | group (children : List Node)
  /-- A node picked from what the pass has seen. -/
  | select (choose : FieldContext → Noted Node)
  | custom (codec : Codec)
  /-- The text of a string; only as a payload. -/
  | text (encoding : TextEncoding)
  | int (kind : IntKind)
  | float (kind : FloatKind)

/-- What an integer announces. -/
inductive Payload where
  | none
  /-- The integer is the byte length of a text. -/
  | text (node : Node)
  /-- The integer is the number of items, each of which has all these elements. -/
  | sequence (elements : List Node)

end

namespace Kind

/-- The name of the kind in messages and events. -/
def label : Kind → String
  | order .big _ => "BIG_ENDIAN"
  | order .little _ => "LITTLE_ENDIAN"
  | directory _ _ => "DIR"
  | file _ _ => "FILE"
  | group _ => "GROUP"
  | select _ => "SELECT"
  | custom _ => "CUSTOM"
  | text encoding => encoding.label
  | int kind => kind.label
  | float kind => kind.label

/-- The kind with the path of a directory or file. -/
def describe : Kind → String
  | directory path _ => "Directory(" ++ path ++ ")"
  | file path _ => "File(" ++ path ++ ")"
  | kind => kind.label

/-- Whether a node of this kind is a field of the result. -/
def isField : Kind → Bool
  | int _ | float _ | custom _ => true
  | _ => false

def isFile : Kind → Bool
  | file _ _ => true
  | _ => false

def isText : Kind → Bool
  | text _ => true
  | _ => false

/-- The nodes that the kind holds. -/
def children : Kind → List Node
  | order _ children | directory _ children | file _ children | group children => children
  | _ => []

end Kind

namespace Node

def kind : Node → Kind
  | mk kind _ _ _ => kind

def name : Node → Option String
  | mk _ name _ _ => name

/-- The literal that stands in when the provider has nothing for the field. -/
def default : Node → Option Value
  | mk _ _ default _ => default

def payload : Node → Payload
  | mk _ _ _ payload => payload

/-! ## Building nodes -/

/-- A node without name, default and payload. -/
def ofKind (kind : Kind) : Node := mk kind none none .none

def named : Node → String → Node
  | mk kind _ default payload, name => mk kind (some name) default payload

def withDefault : Node → Value → Node
  | mk kind name _ payload, value => mk kind name (some value) payload

/-- Makes an integer the byte length of a text. -/
def withString : Node → Node → Node
  | mk kind name default _, text => mk kind name default (.text text)

/-- Makes an integer the count of a sequence. -/
def withSequence : Node → List Node → Node
  | mk kind name default _, elements => mk kind name default (.sequence elements)

/-! ## Labels -/

/-- The name of a node, or that of its kind. -/
def label (node : Node) : String := node.name.getD node.kind.label

/-- The segment of a node in the trail of a check: its name, or else the path of a directory or
file, or else the name of its kind. -/
def segment (node : Node) : String :=
  match node.name, node.kind with
  | some name, _ => name
  | none, .directory path _ => path
  | none, .file path _ => path
  | none, kind => kind.label

/-- Whether a node is no unnamed field. -/
def isKeyed (node : Node) : Bool := node.name.isSome || !node.kind.isField

/-- The value of one item of a sequence: a record if no element is an unnamed field and something
was named, the bare value of a lone element, a positional list otherwise. -/
def itemValue (elements : List Node) (record : Fields Value) (results : List Value) : Value :=
  if elements.all isKeyed && !record.isEmpty then .record record
  else
    match elements, results with
    | [_], result :: _ => result
    | [_], [] => .null
    | _, _ => .list results

end Node

end ByteLayout
