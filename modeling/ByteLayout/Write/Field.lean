import ByteLayout.Node
import ByteLayout.Provider
import ByteLayout.Write.Script

/-!
# Writing single fields

The value of a field is what its input provides, a computed entry being called, unless that is
`null`; otherwise it is the default. The value is checked, and only then is the field announced and
its bytes written, so a refused field leaves no byte behind. What is written is kept in the record,
under the name of the field, for later callbacks.

An integer keeps the integer, a text the string, and a float or custom field the value that it was
given.
-/

namespace ByteLayout.Write

/-- What all nodes of a write pass share. -/
structure Pass where
  user : Value
  /-- Whether the record of every file has an entry of its own. -/
  nest : Bool

/-- The error of a field without value. -/
def missing (scope : Scope) : Error := .invalidValue scope.trail .missing

namespace Pass

variable (pass : Pass)

/-- Calls a provider that is computed. -/
def compute (scope : Scope) (record : Fields Value) : Provider → Script Provider
  | .computed f =>
    let context := scope.context pass.user record
    .called (.compute context) (f context)
  | provider => .pure provider

/-- What the input has for a node. -/
def provided (name : Option String) (scope : Scope) (input : Input) (record : Fields Value) :
    Script (Option Provider) := do
  match input.lookup? name with
  | none => return none
  | some provider => return some (← pass.compute scope record provider)

/-- The literal that the input has for a node; `null` counts as nothing. -/
def literal (name : Option String) (scope : Scope) (input : Input) (record : Fields Value) :
    Script (Option Value) := do
  let provider ← pass.provided name scope input record
  return (provider.bind Provider.toValue?).filter fun value => !value.isNull

/-- The value that a field is written from: the literal that the input has for it, or else the
default. -/
def resolve (kind : String) (name : Option String) (default : Option Value) (scope : Scope)
    (input : Input) (record : Fields Value) : Script Value := do
  let given ← pass.literal name scope input record
  match given.or default with
  | none => .fail (missing scope)
  | some value =>
    .event (.resolved scope.trail kind value)
    return value

/-- Announces a scalar and writes its bytes. -/
def scalar (scope : Scope) (kind : String) (bytes : List UInt8) : Script Unit := do
  .step (.field scope.trail kind)
  .step (.scalar bytes)

/-- Writes an integer field. -/
def int (kind : IntKind) (name : Option String) (default : Option Value) (scope : Scope)
    (input : Input) (record : Fields Value) : Script Kept := do
  let order ← .ofExcept (scope.fieldOrder kind.label)
  let value ← pass.resolve kind.label name default scope input record
  let n ← .ofCheck scope.trail (kind.check value)
  scalar scope kind.label (kind.encode order n)
  return keep name record (.int n)

/-- Writes a float field. -/
def float (kind : FloatKind) (name : Option String) (default : Option Value) (scope : Scope)
    (input : Input) (record : Fields Value) : Script Kept := do
  let order ← .ofExcept (scope.fieldOrder kind.label)
  let value ← pass.resolve kind.label name default scope input record
  let x ← .ofCheck scope.trail (kind.check value)
  scalar scope kind.label (kind.encode order x)
  return keep name record value

/-- The length of a text as an integer of a kind. -/
def lengthOf (kind : IntKind) (bytes : Nat) : Except Reason Int :=
  match kind.check (.int bytes) with
  | .ok n => .ok n
  | .error _ => .error (.lengthOverflow bytes kind)

/-- Writes a text behind its length. The default of the text goes before that of the integer. -/
def string (kind : IntKind) (text : Node) (name : Option String) (default : Option Value)
    (scope : Scope) (input : Input) (record : Fields Value) : Script Kept := do
  let order ← .ofExcept (scope.fieldOrder kind.label)
  match text.kind with
  | .text encoding =>
    let value ← pass.resolve kind.label name (text.default.or default) scope input record
    let content ← .ofCheck scope.trail value.toText
    let bytes ← .ofCheck scope.trail (encoding.toBytes content)
    let length ← .ofCheck scope.trail (lengthOf kind (encoding.byteLength content))
    scalar scope kind.label (kind.encode order length)
    .step (.payload bytes)
    return keep name record (.string content)
  | other => .fail (.unexpectedNode other.label scope.trail)

/-- Writes the bytes of an encoder. It runs before the field is announced. -/
def custom (codec : Codec) (kind : String) (name : Option String) (default : Option Value)
    (scope : Scope) (input : Input) (record : Fields Value) : Script Kept := do
  let order ← .ofExcept (scope.fieldOrder kind)
  let given ← pass.literal name scope input record
  let value := (given.or default).getD .null
  let context := scope.codecContext order pass.user record
  let encoded ← .called (.encode value context) (codec.encode context value).run
  match encoded with
  | .error fault => .fail (fault.atField scope.trail)
  | .ok bytes =>
    .step (.field scope.trail kind)
    .step (.payload bytes)
    return keep name record value

/-! ## Sequences -/

/-- What a sequence is written from: the count, the items, and whether they are made one by one. -/
structure Supply where
  count : Value
  length : Nat
  item : Nat → Noted Provider
  isLazy : Bool

/-- The supply of a list. -/
def Supply.ofList (items : List Provider) : Supply :=
  let items := items.toArray
  { count := .int items.size
    length := items.size
    item := fun index => ⟨items.getD index .empty, []⟩
    isLazy := false }

/-- The supply of a lazy sequence. -/
def Supply.ofLazy (sequence : LazySequence Provider) : Supply :=
  { count := sequence.count, length := sequence.length, item := sequence.item, isLazy := true }

/-- What a sequence is written from: its entry, unless that is the literal `null`, or the
default. -/
def supplier (name : Option String) (default : Option Value) (scope : Scope) (input : Input)
    (record : Fields Value) : Script Provider := do
  match ← pass.provided name scope input record, default with
  | some (.value .null), some value => return .ofValue value
  | some (.value .null), none => .fail (missing scope)
  | some provider, _ => return provider
  | none, some value => return .ofValue value
  | none, none => .fail (missing scope)

/-- The count and the items of a list or of a lazy sequence. -/
def supply (scope : Scope) (record : Fields Value) : Provider → Script Supply
  | .list items => return .ofList items
  | .lazy generate => do
    let context := scope.context pass.user record
    let sequence ← .called (.generate context) (generate context)
    .event (.generated scope.trail sequence.count sequence.length)
    return .ofLazy sequence
  | .value value => .fail (.invalidValue scope.trail (.notListValue value.shape))
  | .record _ | .computed _ => .fail (.invalidValue scope.trail .notList)

/-- A count as an integer of a kind. -/
def countOf (kind : IntKind) (count : Value) : Except Reason Int :=
  match kind.check count with
  | .ok n => .ok n
  | .error reason => .error (.badCount reason)

/-- Takes an item from its sequence; a computed one is called, with an empty record. -/
def pull (scope : Scope) (supply : Supply) (index : Nat) : Script Provider := do
  let item := supply.item index
  if supply.isLazy then
    .event (.pulled scope.trail index)
    .notes item.notes
  pass.compute (scope.item index) [] item.value

/-- Where the elements of an item look for their values: in the positions of a list, if there is
more than one element, and otherwise in the item as a whole. -/
def itemInput (elements : Nat) (item : Provider) (index : Nat) : Input :=
  match item with
  | .list values =>
    if 1 < elements then
      match values[index]? with
      | some value => .exactly value
      | none => .absent
    else .within item
  | _ => .within item

end Pass

end ByteLayout.Write
