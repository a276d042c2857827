import ByteLayout.Character.Property

/-!
# Quoted characters

A character in single quotes, as messages show it. A quote and a backslash are escaped by a
backslash, the usual control characters by their letter. A character that would not be visible on
its own is shown by its code point in hexadecimal: one without a printed form, one that is ignored
by default, and a mark that extends the grapheme before it.
-/

namespace ByteLayout.Character

/-- The hexadecimal digits of a code point, in lower case and without leading zeros. -/
def hexDigits (code : Nat) : String := String.ofList (Nat.toDigits 16 code)

/-- A code point by its number. -/
def codeEscape (code : Nat) : String := "\\u\x7b" ++ hexDigits code ++ "\x7d"

/-- Whether a code point would not be visible on its own. -/
def isHidden (code : Nat) : Bool :=
  isExtendingMark code || isDefaultIgnorable code || isUnprintable code

/-- A character as it stands between the quotes. -/
def escaped (c : Char) : String :=
  if c = '\x00' then "\\0"
  else if c = '\t' then "\\t"
  else if c = '\n' then "\\n"
  else if c = '\r' then "\\r"
  else if c = '\'' then "\\'"
  else if c = '\\' then "\\\\"
  else if isHidden c.toNat then codeEscape c.toNat
  else String.singleton c

/-- A character in single quotes. -/
def quoted (c : Char) : String := "'" ++ escaped c ++ "'"

end ByteLayout.Character
