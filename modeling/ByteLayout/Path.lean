/-!
# Paths

A path is a text whose parts are separated by slashes. Two rules are needed.

- **Resolution** (`resolve`). A relative path is put behind a base: its parts, empty ones left out,
  each after a slash. Nothing is normalised, so `.` and `..` stay, and so does what the base ends
  in.
- **Splitting** (`parent?`, `fileName?`). The last part of a path is the last that counts: an empty
  part does not, and neither does `.`, except at the very beginning of a relative path. A slash at
  the beginning is the root. The parent is the text before the last part, stripped in the same way
  at its end.
-/

namespace ByteLayout.Path

/-- The parts between the slashes, of which there is always one. -/
def parts (path : String) : List String := path.splitOn "/"

/-- The parts with slashes between them. -/
def join (parts : List String) : String := String.intercalate "/" parts

/-! ## Resolution -/

/-- The parts of a relative path that count when it is resolved. -/
def components (relative : String) : List String := (parts relative).filter (· ≠ "")

/-- Puts one part behind a base. -/
def push (base part : String) : String := if base = "" then part else base ++ "/" ++ part

/-- A relative path, seen from a base. -/
def resolve (base relative : String) : String := (components relative).foldl push base

/-! ## Splitting -/

/-- Whether a path starts at the root. -/
def isAbsolute (path : String) : Bool :=
  match parts path with
  | "" :: _ :: _ => true
  | _ => false

/-- Drops what does not count at the end; the parts are given last first. Of an absolute path the
first part is the root and stays. -/
def trimEnd (absolute : Bool) : List String → List String
  | [] => []
  | [first] => if first = "" && !absolute then [] else [first]
  | part :: next :: before =>
    if part = "" || part = "." then trimEnd absolute (next :: before) else part :: next :: before

/-- The parts up to the last that counts, last first. -/
def trimmed (path : String) : List String := trimEnd (isAbsolute path) (parts path).reverse

/-- The path of trimmed parts, given last first. -/
def ofTrimmed (absolute : Bool) (reversed : List String) : String :=
  match trimEnd absolute reversed with
  | [""] => "/"
  | rest => join rest.reverse

/-- The path without its last part; the root and the empty path have none. -/
def parent? (path : String) : Option String :=
  match trimmed path with
  | [] => none
  | [first] => if first = "" then none else some ""
  | _ :: before => some (ofTrimmed (isAbsolute path) before)

/-- The last part of a path, unless it is the root or one of the two dots. -/
def fileName? (path : String) : Option String :=
  match trimmed path with
  | [] => none
  | part :: _ => if part = "" || part = "." || part = ".." then none else some part

end ByteLayout.Path
