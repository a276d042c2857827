import ByteLayout.Proofs.Agreement
import ByteLayout.Proofs.Fields

/-!
# Plain layouts and their records

A layout is **plain** (`Node.Plain`) if it is built of byte orders, groups, integers, floats,
strings and sequences, every field lies below a byte order, and every list of elements is
**regular**: it has fields and all of them are named, or it consists of fields.

A record **conforms** to a plain layout (`Schema.Conforms`) if it has exactly the names of the
fields, and under each a value that fits the field: an integer that the kind holds, a double that
the kind represents, a text that the encoding can represent and whose length the kind holds, or a
list whose length the kind holds. An item of a list has one of three shapes (`Node.Shaped`): a
record if all elements are named, the bare value of a lone element, or a list with one value for
each element.
-/

namespace ByteLayout

namespace Node

/-! ## Plain layouts -/

mutual

/-- The names of the fields of a tree that go into one record. -/
def names : Node → List String
  | .mk kind name _ _ =>
    match kind with
    | .order _ children => namesAll children
    | .group children => namesAll children
    | .int _ => name.toList
    | .float _ => name.toList
    | _ => []
termination_by structural node => node

def namesAll : List Node → List String
  | [] => []
  | node :: rest => names node ++ namesAll rest
termination_by structural nodes => nodes

end

/-- Whether elements have fields and all of them are named, or are nothing but fields. -/
def Regular (elements : List Node) : Prop :=
  if elements.all isKeyed then namesAll elements ≠ []
  else elements.all fun node => node.kind.isField

/-- Whether a node is a text and nothing else. -/
def IsText : Node → Prop
  | .mk (.text _) _ _ .none => True
  | _ => False

mutual

/-- Whether a tree is plain, given whether it lies below a byte order. -/
def Plain (ordered : Bool) : Node → Prop
  | .mk kind _ _ payload => PlainPayload payload ∧ PlainKind ordered kind

def PlainPayload : Payload → Prop
  | .none => True
  | .text text => text.IsText
  | .sequence elements => Regular elements ∧ PlainAll true elements

def PlainKind (ordered : Bool) : Kind → Prop
  | .order _ children => PlainAll true children
  | .group children => PlainAll ordered children
  | .int _ => ordered = true
  | .float _ => ordered = true
  | _ => False

def PlainAll (ordered : Bool) : List Node → Prop
  | [] => True
  | node :: rest => Plain ordered node ∧ PlainAll ordered rest

end

theorem IsText.eq {text : Node} (h : text.IsText) :
    ∃ encoding name default, text = .mk (.text encoding) name default .none := by
  obtain ⟨kind, name, default, payload⟩ := text
  cases kind with
  | text encoding =>
    cases payload with
    | none => exact ⟨encoding, name, default, rfl⟩
    | text node => cases h
    | sequence elements => cases h
  | _ => cases h

theorem IsText.every {P : Kind → Prop} (hkind : ∀ encoding, P (.text encoding)) {text : Node}
    (h : text.IsText) : text.Every P := by
  obtain ⟨encoding, name, default, rfl⟩ := h.eq
  exact ⟨hkind encoding, trivial, trivial⟩

theorem IsText.fileCount_eq_zero {text : Node} (htext : text.IsText) : text.fileCount = 0 := by
  obtain ⟨encoding, name, default, rfl⟩ := htext.eq
  rfl

mutual

/-- A plain tree has no files. -/
theorem Plain.fileCount_eq_zero {ordered : Bool} :
    ∀ node : Node, node.Plain ordered → node.fileCount = 0
  | .mk kind _ _ payload => by
    rintro ⟨hpayload, hkind⟩
    rw [fileCount, PlainPayload.filesInPayload_eq_zero payload hpayload,
      PlainKind.filesInKind_eq_zero kind hkind]
termination_by structural node => node

theorem PlainPayload.filesInPayload_eq_zero :
    ∀ payload : Payload, PlainPayload payload → filesInPayload payload = 0
  | .none => fun _ => rfl
  | .text _ => IsText.fileCount_eq_zero
  | .sequence elements => fun h => PlainAll.filesInAll_eq_zero elements h.2
termination_by structural payload => payload

theorem PlainKind.filesInKind_eq_zero {ordered : Bool} :
    ∀ kind : Kind, PlainKind ordered kind → filesInKind kind = 0
  | .order _ children => PlainAll.filesInAll_eq_zero children
  | .group children => PlainAll.filesInAll_eq_zero children
  | .int _ | .float _ => fun _ => rfl
  | .directory _ _ | .file _ _ | .select _ | .custom _ | .text _ => False.elim
termination_by structural kind => kind

theorem PlainAll.filesInAll_eq_zero {ordered : Bool} :
    ∀ nodes : List Node, PlainAll ordered nodes → filesInAll nodes = 0
  | [] => fun _ => rfl
  | node :: rest => fun h => by
    rw [filesInAll, Plain.fileCount_eq_zero node h.1, PlainAll.filesInAll_eq_zero rest h.2]
termination_by structural nodes => nodes

end

mutual

/-- A read pass can follow a write pass through a plain tree, wherever the two passes lie. -/
theorem Plain.retraceable {ordered : Bool} :
    ∀ node : Node, node.Plain ordered → node.Every (Kind.Retraceable False)
  | .mk kind _ _ payload => by
    rintro ⟨hpayload, hkind⟩
    obtain ⟨hself, hbelow⟩ := PlainKind.retraceable kind hkind
    exact ⟨hself, PlainPayload.retraceable payload hpayload, hbelow⟩
termination_by structural node => node

theorem PlainPayload.retraceable :
    ∀ payload : Payload, PlainPayload payload → EveryPayload (Kind.Retraceable False) payload
  | .none => fun _ => trivial
  | .text _ => IsText.every fun _ => trivial
  | .sequence elements => fun h => PlainAll.retraceable elements h.2
termination_by structural payload => payload

theorem PlainKind.retraceable {ordered : Bool} :
    ∀ kind : Kind, PlainKind ordered kind →
      kind.Retraceable False ∧ EveryKind (Kind.Retraceable False) kind
  | .order _ children => fun h => ⟨trivial, PlainAll.retraceable children h⟩
  | .group children => fun h => ⟨trivial, PlainAll.retraceable children h⟩
  | .int _ | .float _ => fun _ => ⟨trivial, trivial⟩
  | .directory _ _ | .file _ _ | .select _ | .custom _ | .text _ => False.elim
termination_by structural kind => kind

theorem PlainAll.retraceable {ordered : Bool} :
    ∀ nodes : List Node, PlainAll ordered nodes → EveryAll (Kind.Retraceable False) nodes
  | [] => fun _ => trivial
  | node :: rest => fun h => ⟨Plain.retraceable node h.1, PlainAll.retraceable rest h.2⟩
termination_by structural nodes => nodes

end

/-! ## Conforming values -/

/-- Whether an integer in front of a text can announce its length, and the text has bytes. -/
def Carries (text : Node) (kind : IntKind) (content : String) : Prop :=
  match text.kind with
  | .text encoding =>
    (∃ bytes, encoding.toBytes content = .ok bytes) ∧ kind.Holds (encoding.byteLength content)
  | _ => False

/-- Whether an item has the shape that the elements ask for: a record with exactly their names, the
bare value of a lone element, or a list with a value for each. -/
def Shaped (elements : List Node) (entries : Fields Value → Prop) (each : List Value → Prop)
    (item : Value) : Prop :=
  if elements.all isKeyed then
    ∃ fields, item = .record fields ∧ Fields.Exactly fields (namesAll elements) ∧ entries fields
  else if elements.length = 1 then each [item]
  else ∃ values, item = .list values ∧ each values

mutual

/-- Whether a value fits a field. -/
def Fits : Node → Value → Prop
  | .mk kind _ _ payload, value =>
    match kind with
    | .int kind => FitsPayload kind payload value
    | .float kind => ∃ x, value = .float x ∧ kind.Represents x
    | _ => False
termination_by structural node => node

/-- Whether a value fits an integer with a payload. -/
def FitsPayload (kind : IntKind) : Payload → Value → Prop
  | .none, value => ∃ n, value = .int n ∧ kind.Holds n
  | .text text, value => ∃ content, value = .string content ∧ text.Carries kind content
  | .sequence elements, value =>
    ∃ items, value = .list items ∧ kind.Holds items.length ∧
      ∀ item ∈ items, Shaped elements (FitsAllEntries elements) (FitsEach elements) item
termination_by structural payload => payload

/-- Whether the entries of a record fit the fields of a tree. -/
def FitsEntries : Node → Fields Value → Prop
  | .mk kind name _ payload, fields =>
    match kind with
    | .order _ children => FitsAllEntries children fields
    | .group children => FitsAllEntries children fields
    | .int kind =>
      ∃ key value, name = some key ∧ Fields.get? fields key = some value ∧
        FitsPayload kind payload value
    | .float kind =>
      ∃ key x, name = some key ∧ Fields.get? fields key = some (.float x) ∧ kind.Represents x
    | _ => False
termination_by structural node => node

def FitsAllEntries : List Node → Fields Value → Prop
  | [], _ => True
  | node :: rest, fields => FitsEntries node fields ∧ FitsAllEntries rest fields
termination_by structural nodes => nodes

/-- Whether values fit fields, one by one. -/
def FitsEach : List Node → List Value → Prop
  | [], values => values = []
  | node :: rest, values =>
    ∃ value others, values = value :: others ∧ Fits node value ∧ FitsEach rest others
termination_by structural nodes => nodes

end

/-! ## Items from what was kept -/

theorem itemValue_of_record {elements : List Node} {fields : Fields Value} (results : List Value)
    (hkeyed : elements.all isKeyed) (hfields : fields ≠ []) :
    itemValue elements fields results = .record fields := by
  have hnonempty : fields.isEmpty = false := List.isEmpty_eq_false_iff.mpr hfields
  unfold itemValue
  rw [hkeyed, hnonempty]
  rfl

theorem itemValue_of_keyed {elements : List Node} {fields : Fields Value} (results : List Value)
    (hkeyed : elements.all isKeyed) (hnames : namesAll elements ≠ [])
    (hfields : Fields.Exactly fields (namesAll elements)) :
    itemValue elements fields results = .record fields := by
  refine itemValue_of_record results hkeyed fun hnil => ?_
  obtain ⟨name, hname⟩ := List.exists_mem_of_ne_nil _ hnames
  rw [hnil] at hfields
  cases (hfields.names name).mpr hname

/-- Elements that are no fields of a record are more than one, or a lone one without name. -/
theorem lone_of_not_keyed {elements : List Node} (hkeyed : ¬elements.all isKeyed) :
    1 < elements.length ∨ ∃ node, elements = [node] ∧ node.name = none := by
  match elements, hkeyed with
  | [], hkeyed => exact absurd rfl hkeyed
  | [node], hkeyed =>
    rw [List.all_cons, List.all_nil, Bool.and_true, isKeyed, Bool.or_eq_true, not_or] at hkeyed
    exact .inr ⟨node, rfl, Option.not_isSome_iff_eq_none.mp hkeyed.1⟩
  | _ :: _ :: _, _ => exact .inl (Nat.succ_lt_succ (Nat.succ_pos _))

theorem one_lt_length_of_not_keyed {elements : List Node} (hkeyed : ¬elements.all isKeyed)
    (hlone : elements.length ≠ 1) : 1 < elements.length :=
  (lone_of_not_keyed hkeyed).resolve_right fun ⟨_, helements, _⟩ =>
    hlone (congrArg List.length helements)

theorem itemValue_of_lone {elements : List Node} {fields : Fields Value} {value : Value}
    (hkeyed : ¬elements.all isKeyed) (hlone : elements.length = 1) :
    itemValue elements fields [value] = value := by
  obtain ⟨node, rfl⟩ := List.length_eq_one_iff.mp hlone
  unfold itemValue
  rw [Bool.not_eq_true _ |>.mp hkeyed]
  rfl

theorem itemValue_of_positions {elements : List Node} {fields : Fields Value} {values : List Value}
    (hkeyed : ¬elements.all isKeyed) (hmore : 1 < elements.length) :
    itemValue elements fields values = .list values := by
  unfold itemValue
  rw [Bool.not_eq_true _ |>.mp hkeyed]
  match elements, hmore with
  | _ :: _ :: _, _ => rfl

end Node

/-- A record that conforms to a layout. -/
structure Schema.Conforms (schema : Schema) (record : Fields Value) : Prop where
  names : Fields.Exactly record schema.root.names
  entries : schema.root.FitsEntries record

end ByteLayout
