import ByteLayout.Scope

/-!
# Providers and transforms

A provider is the data that a pass writes. It is a literal, a record or a list of providers, an
entry computed from the context when the pass comes to its field, or a lazy sequence.

A lazy sequence declares its count, which is written before any item is asked for and trusted as it
is: the number of items it really has may be another.

`Provider.ofValue` turns a value into a provider that can be looked into, `toValue?` goes back as
far as the provider is literal.
-/

namespace ByteLayout

/-- A sequence whose items are made one by one, behind a declared count. -/
structure LazySequence (Item : Type) where
  count : Value
  /-- The number of items there are. -/
  length : Nat
  item : Nat → Noted Item

/-- The data of a write pass. -/
inductive Provider where
  | value (value : Value)
  | record (fields : List (String × Provider))
  | list (items : List Provider)
  | computed (compute : FieldContext → Noted Provider)
  | lazy (generate : FieldContext → Noted (LazySequence Provider))

namespace Provider

/-- The provider without any field. -/
def empty : Provider := record []

/-- The entry of a record. Anything else has no entries. -/
def field? : Provider → String → Option Provider
  | record fields, name => Fields.get? fields name
  | _, _ => none

/-! ## Literals -/

mutual

/-- The literal of a value, its lists and records opened. -/
def ofValue : Value → Provider
  | .record fields => record (ofFields fields)
  | .list items => list (ofItems items)
  | scalar => value scalar

def ofItems : List Value → List Provider
  | [] => []
  | item :: rest => ofValue item :: ofItems rest

def ofFields : List (String × Value) → List (String × Provider)
  | [] => []
  | (name, field) :: rest => (name, ofValue field) :: ofFields rest

end

mutual

/-- The value of a literal provider. Computed and lazy entries have none and are left out of the
records and lists they are in. -/
def toValue? : Provider → Option Value
  | value v => some v
  | record fields => some (.record (toFields fields))
  | list items => some (.list (toItems items))
  | computed _ => none
  | lazy _ => none

def toItems : List Provider → List Value
  | [] => []
  | item :: rest =>
    match toValue? item with
    | some v => v :: toItems rest
    | none => toItems rest

def toFields : List (String × Provider) → List (String × Value)
  | [] => []
  | (name, field) :: rest =>
    match toValue? field with
    | some v => (name, v) :: toFields rest
    | none => toFields rest

end

end Provider

/-! ## Inputs

Where a node looks for its value depends on what surrounds it. -/

/-- The place where a node looks for its value. -/
inductive Input where
  /-- There is none. -/
  | absent
  /-- Named nodes look their entry up, unnamed ones take the whole provider. -/
  | within (provider : Provider)
  /-- One position of a list, taken whatever the name. -/
  | exactly (provider : Provider)

namespace Input

/-- What a node of the given name finds. -/
def lookup? : Input → Option String → Option Provider
  | absent, _ => none
  | exactly provider, _ => some provider
  | within provider, none => some provider
  | within provider, some name => provider.field? name

/-- The input of the children of a node that has no entry of its own. -/
def enter : Input → Input
  | exactly provider => within provider
  | other => other

/-- The input below the entry `key`. -/
def below (input : Input) (key : String) : Input :=
  match input.enter with
  | within provider =>
    match provider.field? key with
    | some inner => within inner
    | none => absent
  | _ => absent

end Input

/-! ## Transforms -/

/-- How decoded values are changed. -/
inductive Transform where
  | map (function : Value → FieldContext → Noted Value)
  | fields (entries : List (String × Transform))

namespace Transform

/-- The transform of a field. -/
def field? : Transform → String → Option Transform
  | fields entries, name => Fields.get? entries name
  | map _, _ => none

/-- The function of a `map`. -/
def function? : Transform → Option (Value → FieldContext → Noted Value)
  | map function => some function
  | fields _ => none

end Transform

end ByteLayout
