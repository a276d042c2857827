import ByteLayout.Noted
import ByteLayout.Error
import ByteLayout.Path

/-!
# Scopes

A scope is what a pass knows about the place it has reached in a layout: the byte order, the
directory, the file, the position within the innermost sequence, and the **trail**, the path that
errors and events name. Scopes are never changed; entering a subtree derives a new one, so nothing
that a subtree sets reaches its siblings.

A field lies in a file and has a byte order; if it lacks both, it is the file that is reported. What
is written or read for a field that has a name is kept in the partial record, for the callbacks of
later fields and for the result.

Callbacks see an extract of the scope together with the user's value and the partial record
(`FieldContext`, for encoders and decoders `CodecContext`).
-/

namespace ByteLayout

/-- The place that a pass has reached. -/
structure Scope where
  order : Option ByteOrder
  trail : String
  dir : String
  file : Option String
  index : Option Nat

namespace Scope

/-- The scope of a whole pass, in a base directory. -/
def base (dir : String) : Scope :=
  { order := none, trail := dir, dir, file := none, index := none }

def requireOrder (scope : Scope) : Except Error ByteOrder :=
  match scope.order with
  | some order => .ok order
  | none => .error (.missingByteOrder scope.trail)

def withOrder (scope : Scope) (order : ByteOrder) : Scope := { scope with order := some order }

/-- The scope of a field. -/
def field (scope : Scope) (segment : String) : Scope :=
  { scope with trail := scope.trail ++ "/" ++ segment }

/-- The scope of an item of a sequence. -/
def item (scope : Scope) (index : Nat) : Scope :=
  { scope with trail := scope.trail ++ "/[" ++ toString index ++ "]", index := some index }

/-- The scope of a directory. Within a file it only lengthens the trail. -/
def enterDir (scope : Scope) (relative : String) : Scope :=
  let dir := Path.resolve scope.dir relative
  let trail :=
    match scope.file with
    | some _ => scope.trail ++ "/" ++ relative
    | none => dir
  { scope with trail, dir }

/-- The scope of a file. Files do not nest. -/
def enterFile (scope : Scope) (relative : String) : Except Error Scope :=
  let path := Path.resolve scope.dir relative
  match scope.file with
  | some _ => .error (.nestedFile path)
  | none => .ok { scope with trail := path, file := some path, index := none }

/-- The byte order of a field, unless it lies in no file or has none. -/
def fieldOrder (scope : Scope) (kind : String) : Except Error ByteOrder :=
  match scope.file with
  | none => .error (.noFileScope kind scope.trail)
  | some _ => scope.requireOrder

end Scope

/-- The directory and the name of the one file of a layout without file nodes. -/
def splitTarget (target : String) : Except Error (String × String) :=
  match Path.fileName? target with
  | some name => .ok ((Path.parent? target).getD "", name)
  | none => .error (.invalidTarget target)

/-! ## The partial record -/

/-- The value that a node gives to the one above it, and the record afterwards. -/
abbrev Kept : Type := Value × Fields Value

/-- Keeps a value under the name of a node, if it has one. -/
def keep (name : Option String) (record : Fields Value) (value : Value) : Kept :=
  match name with
  | some name => (value, Fields.insert record name value)
  | none => (value, record)

/-! ## What callbacks see -/

/-- What a callback sees of the pass it runs in. -/
structure FieldContext where
  path : String
  index : Option Nat
  order : Option ByteOrder
  user : Value
  record : Fields Value

/-- What an encoder or decoder sees of the pass it runs in; there the byte order is known. -/
structure CodecContext where
  path : String
  order : ByteOrder
  user : Value
  record : Fields Value

/-- The context of a callback in a scope. -/
def Scope.context (scope : Scope) (user : Value) (record : Fields Value) : FieldContext :=
  { path := scope.trail, index := scope.index, order := scope.order, user, record }

/-- The context of an encoder or decoder in a scope whose byte order is given. -/
def Scope.codecContext (scope : Scope) (order : ByteOrder) (user : Value)
    (record : Fields Value) : CodecContext :=
  { path := scope.trail, order, user, record }

end ByteLayout
