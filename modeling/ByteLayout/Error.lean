import ByteLayout.Character.Quoted
import ByteLayout.Decimal.Notation
import ByteLayout.Scalar.Kind

/-!
# Errors

Every failure of the library is an `Error`, one constructor for each cause, with the path of the
place at which it arose. A refused value carries a `Reason`. `Error.message` and `Reason.message`
are the only places that word them.

Errors fall into five categories (`Error.category`). A failure of a sink or a source keeps the
`IoError` that was reported, a failure of a callback the text it failed with; neither is part of the
message.
-/

namespace ByteLayout

/-- Why a value was refused. -/
inductive Reason where
  | missing
  | notInteger (found : Shape)
  | fractional (x : Double)
  | outOfRange (n : Int) (kind : IntKind)
  | notNumber (found : Shape)
  | notFinite
  | tooLarge (x : Double)
  | notText (found : Shape)
  | unrepresentable (c : Char)
  | lengthOverflow (bytes : Nat) (kind : IntKind)
  | notListValue (found : Shape)
  | notList
  | badCount (reason : Reason)
  | invalidCount (n : Int)
  | windowTooLarge (bytes capacity : Nat)
  deriving DecidableEq

namespace Reason

def message : Reason → String
  | missing => "no value provided"
  | notInteger found => "expected an integer, found " ++ found.describe
  | fractional x => x.text ++ " is not an integer"
  | outOfRange n kind => toString n ++ " is out of range for " ++ kind.label
  | notNumber found => "expected a number, found " ++ found.describe
  | notFinite => "value is not finite"
  | tooLarge x => x.positional ++ " is out of range for F32"
  | notText found => "expected a string, found " ++ found.describe
  | unrepresentable c => Character.quoted c ++ " can not be represented in LATIN1"
  | lengthOverflow bytes kind =>
    toString bytes ++ " encoded bytes overflow a " ++ kind.label ++ " length"
  | notListValue found => "expected a list, found " ++ found.describe
  | notList => "expected a list"
  | badCount reason => "sequence count: " ++ reason.message
  | invalidCount n => toString n ++ " is not a valid count"
  | windowTooLarge bytes capacity =>
    toString bytes ++ " bytes do not fit a " ++ toString capacity ++ " byte buffer"

end Reason

/-- A failure that a sink or a source reports. -/
structure IoError where
  kind : String
  text : String
  deriving DecidableEq, Repr

/-- The failure of a sink that accepts no byte. -/
def IoError.writeZero : IoError := ⟨"WriteZero", "write zero"⟩

/-- Broad classes of failure. -/
inductive ErrorCategory where
  /-- The schema or the options are malformed. -/
  | configuration
  /-- No usable value could be resolved for a field. -/
  | value
  /-- The sink or the source failed. -/
  | io
  /-- The source ended before the declared bytes were read. -/
  | unexpectedEnd
  /-- A callback failed. -/
  | callback
  deriving DecidableEq, Repr

/-- A failure, with the path of the place at which it arose. -/
inductive Error where
  | missingName (kind path : String)
  | misplacedString (kind path : String)
  | invalidPayload (kind payload path : String)
  | emptySequence (path : String)
  | nestedFile (path : String)
  | missingByteOrder (path : String)
  | noFileScope (kind path : String)
  | unexpectedNode (kind path : String)
  | invalidTarget (target : String)
  | invalidValue (path : String) (reason : Reason)
  | io (path : String) (cause : IoError)
  | unexpectedEnd (path : String) (needed : Nat)
  | poisoned (path : String)
  | custom (path cause : String)
  deriving DecidableEq

namespace Error

def category : Error → ErrorCategory
  | missingName .. | misplacedString .. | invalidPayload .. | emptySequence .. | nestedFile ..
  | missingByteOrder .. | noFileScope .. | unexpectedNode .. | invalidTarget .. => .configuration
  | invalidValue .. => .value
  | io .. | poisoned .. => .io
  | unexpectedEnd .. => .unexpectedEnd
  | custom .. => .callback

/-- A node in backquotes. -/
def quoteKind (kind : String) : String := "\x60" ++ kind ++ "\x60"

def message : Error → String
  | missingName kind path => path ++ ": node " ++ quoteKind kind ++ " must have a name"
  | misplacedString kind path =>
    path ++ ": " ++ quoteKind kind ++ " string must be the payload of a U8, U16, U32, or U64 node "
      ++ "to specify the length of the string"
  | invalidPayload kind payload path =>
    path ++ ": node " ++ quoteKind kind ++ " cannot carry a " ++ payload ++ " payload"
  | emptySequence path => path ++ ": sequence element schema is empty"
  | nestedFile path => path ++ ": attempting to open a file within a file"
  | missingByteOrder path =>
    path ++ ": endianness not specified, it can not be implicit and must be defined"
  | noFileScope kind path =>
    path ++ ": node " ++ quoteKind kind ++ " is outside of any file scope"
  | unexpectedNode kind path =>
    path ++ ": node " ++ quoteKind kind ++ " can not be visited on its own"
  | invalidTarget target => "invalid target path " ++ quoteKind target
  | invalidValue path reason => path ++ ": invalid value provided (" ++ reason.message ++ ")"
  | io path _ => path ++ ": I/O failure"
  | unexpectedEnd path needed =>
    path ++ ": stream closed but " ++ toString needed ++ " more bytes were still expected"
  | poisoned path => path ++ ": stream already failed"
  | custom path _ => path ++ ": custom codec failed"

/-- What lies behind a failure of a sink, a source or a callback. -/
def cause? : Error → Option String
  | io _ cause => some (cause.kind ++ ": " ++ cause.text)
  | custom _ cause => some cause
  | _ => none

end Error

/-- How a callback fails: by passing on an error of the library, or with a text of its own. -/
inductive Fault where
  | library (error : Error)
  | foreign (text : String)
  deriving DecidableEq

/-- The error of a field whose callback failed. An error of the library is passed on unchanged. -/
def Fault.atField (path : String) : Fault → Error
  | library error => error
  | foreign text => .custom path text

end ByteLayout
