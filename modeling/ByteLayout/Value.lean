import ByteLayout.Fields
import ByteLayout.Float.Format

/-!
# Values

The data that a layout is written from and read into: null, booleans, numbers, strings, lists and
records. A number is an integer or a finite double, and the two are different values even where they
are numerically equal. Infinities and NaNs are no values; where one would arise there is `null`
(`Value.ofBits`).

`Value.same` is the equality that callbacks can ask for. It differs from equality of the data in one
point only: the two zeros of the doubles are the same.
-/

namespace ByteLayout

/-- An integer or a finite double. -/
inductive Number where
  | int (n : Int)
  | float (x : Double)
  deriving DecidableEq

/-- A value of a record. -/
inductive Value where
  | null
  | bool (b : Bool)
  | number (n : Number)
  | string (text : String)
  | list (items : List Value)
  | record (fields : List (String × Value))

instance : Inhabited Value := ⟨.null⟩

/-- What kind of value something is. -/
inductive Shape where
  | null
  | boolean
  | number
  | string
  | list
  | record
  deriving DecidableEq, Repr

namespace Shape

/-- The shape with its article, as messages name it. -/
def describe : Shape → String
  | null => "null"
  | boolean => "a boolean"
  | number => "a number"
  | string => "a string"
  | list => "a list"
  | record => "a record"

end Shape

namespace Number

/-- Numeric equality within one sort of number. -/
def same : Number → Number → Bool
  | int a, int b => a == b
  | float a, float b => a.sameValue b
  | _, _ => false

end Number

namespace Value

/-- The integer `n`. -/
def int (n : Int) : Value := .number (.int n)

/-- The double `x`. -/
def float (x : Double) : Value := .number (.float x)

/-- The value of a double's bit pattern, `null` if the pattern is not finite. -/
def ofBits (bits : Nat) : Value := ((Finite.ofBits? .binary64 bits).map float).getD .null

def shape : Value → Shape
  | null => .null
  | bool _ => .boolean
  | number _ => .number
  | string _ => .string
  | list _ => .list
  | record _ => .record

def isNull : Value → Bool
  | null => true
  | _ => false

/-- Whether the value is the boolean true. -/
def isTrue : Value → Bool
  | bool true => true
  | _ => false

/-- The integer that the value is; a double is none. -/
def asInt? : Value → Option Int
  | number (.int n) => some n
  | _ => none

mutual

/-- Equality of values, the two zeros of the doubles being equal. -/
def same : Value → Value → Bool
  | null, null => true
  | bool a, bool b => a == b
  | number a, number b => a.same b
  | string a, string b => a == b
  | list a, list b => sameItems a b
  | record a, record b => sameFields a b
  | _, _ => false

def sameItems : List Value → List Value → Bool
  | [], [] => true
  | a :: as, b :: bs => same a b && sameItems as bs
  | _, _ => false

def sameFields : List (String × Value) → List (String × Value) → Bool
  | [], [] => true
  | (key, a) :: as, (other, b) :: bs => key == other && same a b && sameFields as bs
  | _, _ => false

end

end Value

end ByteLayout
