import ByteLayout.Noted
import ByteLayout.Scalar.Kind

/-!
# Formulas

A small language for callbacks, so that they can be written down as data. A formula is evaluated in
an environment, the variables and what a callback sees of its pass, and always has a value: what
makes no sense gives `null`, zero or a question mark. A `tap` leaves a note, which shows when a
formula was evaluated.

Arithmetic is that of signed integers of 64 bits and saturates.
-/

namespace ByteLayout

/-- A position in a value: an entry of a record, or an item of a list. -/
inductive Key where
  | name (name : String)
  | position (index : Int)
  deriving DecidableEq, Repr

/-- What a formula is evaluated in. -/
structure Environment where
  path : String := ""
  index : Option Nat := none
  order : Option ByteOrder := none
  user : Value := .null
  record : Fields Value := []
  bindings : Fields Value := []

/-- An expression over an environment. -/
inductive Formula where
  | literal (value : Value)
  | var (name : String)
  | path
  | index
  | order
  | user
  | record
  | get (of : Formula) (key : Key)
  | add (a b : Formula)
  | mul (a b : Formula)
  | same (a b : Formula)
  | cond (condition positive negative : Formula)
  | length (of : Formula)
  | concat (parts : List Formula)
  | list (items : List Formula)
  | object (fields : List (String × Formula))
  | copies (of count : Formula)
  | tap (tag : String) (of : Formula)

/-! ## Operations on values -/

namespace Value

/-- What is at a position of a value. -/
def get (value : Value) (key : Key) : Value :=
  match value, key with
  | .record fields, .name name => (Fields.get? fields name).getD .null
  | .list items, .position index =>
    if index < 0 then .null else (items[index.toNat]?).getD .null
  | _, _ => .null

/-- The bounds of a signed integer of 64 bits. -/
def saturate (n : Int) : Int :=
  let bound : Nat := Nat.pow 2 63
  max (-bound) (min n (bound - 1))

/-- The operand that a value is: a signed integer of 64 bits, or zero. -/
def operand (value : Value) : Int :=
  match value.asInt? with
  | some n => if saturate n = n then n else 0
  | none => 0

/-- A count of bytes that a value stands for; anything but a natural number is zero. -/
def count (value : Value) : Nat := (value.asInt?.getD 0).toNat

/-- A number of copies that a value stands for, which is an operand; a negative one is zero. -/
def multiplicity (value : Value) : Nat := value.operand.toNat

/-- The bytes of a string, or the number of entries. -/
def size : Value → Nat
  | .string text => text.utf8ByteSize
  | .list items => items.length
  | .record fields => fields.length
  | _ => 0

/-- The text of a value as part of a longer one. -/
def part : Value → String
  | .string text => text
  | .number (.int n) => toString n
  | .bool true => "true"
  | .bool false => "false"
  | .null => "null"
  | _ => "?"

end Value

/-- The value of a byte order. -/
def ByteOrder.toValue : ByteOrder → Value
  | big => .string "big"
  | little => .string "little"

/-! ## Evaluation -/

namespace Formula

mutual

/-- The value of a formula, with the notes left on the way. -/
def eval (env : Environment) : Formula → Noted Value
  | literal value => ⟨value, []⟩
  | var name => ⟨(Fields.get? env.bindings name).getD .null, []⟩
  | path => ⟨.string env.path, []⟩
  | index => ⟨(env.index.map fun n => .int n).getD .null, []⟩
  | order => ⟨(env.order.map ByteOrder.toValue).getD .null, []⟩
  | user => ⟨env.user, []⟩
  | record => ⟨.record env.record, []⟩
  | get of key => (eval env of).map fun value => value.get key
  | add a b =>
    (eval env a).bind fun a => (eval env b).map fun b =>
      .int (Value.saturate (a.operand + b.operand))
  | mul a b =>
    (eval env a).bind fun a => (eval env b).map fun b =>
      .int (Value.saturate (a.operand * b.operand))
  | same a b =>
    (eval env a).bind fun a => (eval env b).map fun b => .bool (Value.same a b)
  | cond condition positive negative =>
    (eval env condition).bind fun value =>
      if value.isTrue then eval env positive else eval env negative
  | length of => (eval env of).map fun value => .int value.size
  | concat parts =>
    (evalAll env parts).map fun values => .string (String.join (values.map Value.part))
  | list items => (evalAll env items).map .list
  | object fields => (evalFields env fields).map .record
  | copies of count =>
    (eval env of).bind fun value => (eval env count).map fun count =>
      .list (List.replicate count.multiplicity value)
  | tap tag of =>
    (eval env of).bind fun value => (Noted.leave tag value).map fun _ => value

def evalAll (env : Environment) : List Formula → Noted (List Value)
  | [] => ⟨[], []⟩
  | formula :: rest =>
    (eval env formula).bind fun value => (evalAll env rest).map fun values => value :: values

def evalFields (env : Environment) : List (String × Formula) → Noted (List (String × Value))
  | [] => ⟨[], []⟩
  | (name, formula) :: rest =>
    (eval env formula).bind fun value =>
      (evalFields env rest).map fun values => (name, value) :: values

end

end Formula

end ByteLayout
