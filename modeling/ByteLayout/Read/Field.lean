import ByteLayout.Node
import ByteLayout.Provider
import ByteLayout.Read.Plan

/-!
# Reading single fields

A field is announced, its bytes are read, and its value settles: if the field has a name, the
transform of that name changes it and it is kept in the record. An integer that announces a text or
a sequence is not kept itself; what it announces is.
-/

namespace ByteLayout.Read

/-- What all nodes of a read pass share. -/
structure Pass where
  user : Value
  /-- Whether the record of every file has an entry of its own. -/
  nest : Bool

namespace Pass

variable (pass : Pass)

/-- Changes a value by the function of a transform, if it is one. -/
def transformed (transform : Option Transform) (scope : Scope) (record : Fields Value)
    (value : Value) : Plan Value :=
  match transform.bind Transform.function? with
  | none => .pure value
  | some f =>
    let context := scope.context pass.user record
    .called (.transform value context) (f value context)

/-- Changes the value of a field that has a name, and keeps it. -/
def settle (name : Option String) (scope : Scope) (transform : Option Transform)
    (record : Fields Value) (value : Value) : Plan Kept := do
  match name with
  | none => return (value, record)
  | some name =>
    let value ← pass.transformed (transform.bind (·.field? name)) scope record value
    return keep (some name) record value

/-- Announces an integer and reads it. -/
def integer (kind : IntKind) (scope : Scope) : Plan Int := do
  let order ← .ofExcept (scope.fieldOrder kind.label)
  .field scope.trail kind.label
  let bytes ← .fetch kind.width
  return kind.decode order bytes

/-- An integer as a count. -/
def countOf (scope : Scope) (n : Int) : Except Error Nat :=
  if n < 0 then .error (.invalidValue scope.trail (.invalidCount n)) else .ok n.toNat

/-- Reads an integer field. -/
def int (kind : IntKind) (name : Option String) (scope : Scope) (transform : Option Transform)
    (record : Fields Value) : Plan Kept := do
  let n ← integer kind scope
  pass.settle name scope transform record (.int n)

/-- Reads a float field. -/
def float (kind : FloatKind) (name : Option String) (scope : Scope)
    (transform : Option Transform) (record : Fields Value) : Plan Kept := do
  let order ← .ofExcept (scope.fieldOrder kind.label)
  .field scope.trail kind.label
  let bytes ← .fetch kind.width
  pass.settle name scope transform record (kind.decode order bytes)

/-- Reads a text behind its length. -/
def string (kind : IntKind) (text : Node) (name : Option String) (scope : Scope)
    (transform : Option Transform) (record : Fields Value) : Plan Kept := do
  let n ← integer kind scope
  let length ← .ofExcept (countOf scope n)
  match text.kind with
  | .text encoding =>
    let bytes ← .read length
    pass.settle name scope transform record (.string (encoding.decode bytes))
  | other => .fail (.unexpectedNode other.label scope.trail)

/-- Reads a field with its decoder. -/
def custom (codec : Codec) (kind : String) (name : Option String) (scope : Scope)
    (transform : Option Transform) (record : Fields Value) : Plan Kept := do
  let order ← .ofExcept (scope.fieldOrder kind)
  .field scope.trail kind
  let context := scope.codecContext order pass.user record
  .event (.call (.decode context))
  let value ← .decode scope.trail (codec.decode context)
  pass.settle name scope transform record value

end Pass

end ByteLayout.Read
