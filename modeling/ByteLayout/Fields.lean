/-!
# Named entries, sorted by name

A record is a list of `(name, entry)` pairs kept in increasing order of the names, every name at
most once. Names are compared code point by code point, which is the order of their UTF-8 bytes.
`Fields.insert` keeps the order and replaces an entry that is already there; `Fields.get?` finds
an entry by name.

The list is bare, so that a value type can nest it (`Value.record`), and every record of the
library is built by `insert` from the empty one.
-/

namespace ByteLayout

/-- Entries with their names, in increasing order of the names. -/
abbrev Fields (α : Type) := List (String × α)

namespace Fields

variable {α β : Type}

/-- The entry called `name`. -/
def get? : Fields α → String → Option α
  | [], _ => none
  | (key, entry) :: rest, name => if key = name then some entry else get? rest name

/-- Puts `entry` under `name`, in place of what was there. -/
def insert : Fields α → String → α → Fields α
  | [], name, entry => [(name, entry)]
  | (key, old) :: rest, name, entry =>
    if name < key then (name, entry) :: (key, old) :: rest
    else if name = key then (name, entry) :: rest
    else (key, old) :: insert rest name entry

/-- The record of a list of entries; of two with one name the later one stays. -/
def ofList (entries : List (String × α)) : Fields α :=
  entries.foldl (fun fields entry => insert fields entry.1 entry.2) []

/-- The names, in increasing order. -/
def names (fields : Fields α) : List String := fields.map Prod.fst

/-! ## Lookup after insertion -/

@[simp] theorem get?_nil (name : String) : get? ([] : Fields α) name = none := rfl

theorem get?_insert_self (fields : Fields α) (name : String) (entry : α) :
    get? (insert fields name entry) name = some entry := by
  induction fields with
  | nil => simp [insert, get?]
  | cons head rest ih =>
    obtain ⟨key, old⟩ := head
    simp only [insert]
    split
    · simp [get?]
    · split
      · simp [get?]
      · next h => simp [get?, ih, Ne.symm h]

theorem get?_insert_of_ne (fields : Fields α) {name other : String} (entry : α)
    (h : name ≠ other) : get? (insert fields name entry) other = get? fields other := by
  induction fields with
  | nil => simp [insert, get?, h]
  | cons head rest ih =>
    obtain ⟨key, old⟩ := head
    simp only [insert]
    split
    · simp [get?, h]
    · split
      · next h' => subst h'; simp [get?, h]
      · simp [get?, ih]

end Fields

end ByteLayout
