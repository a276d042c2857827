import ByteLayout.Proofs.Conformance
import ByteLayout.Proofs.Parsing

/-!
# What a read pass finds

The bytes of a plain layout consist of integers, floats and texts. `Node.scan` lists the floats and
the texts, the **parts**, as far as a layout describes the bytes, and says what is left over. It
knows no names and no records: where a part begins depends on the lengths and counts in the bytes.

If a field is parsed, then its bytes come first (`integer_of_parse`, `float_of_parse`,
`string_of_parse`), and those of a sequence are its count and the bytes of its items, one after the
other (`sequence_of_parse`).
-/

namespace ByteLayout

/-! ## Parts -/

/-- A float or a text in the bytes of a layout. -/
inductive Part where
  | float (kind : FloatKind) (order : ByteOrder) (bytes : List UInt8)
  | text (encoding : TextEncoding) (bytes : List UInt8)

/-- Whether a float is finite, and a text well formed in its encoding. -/
def Part.WellFormed : Part → Prop
  | .float kind order bytes =>
    (Finite.ofBits? kind.format (FloatKind.decodeBits order bytes)).isSome
  | .text encoding bytes => encoding.WellFormed bytes

/-- The parts that come first in some bytes, and the bytes that are left over. -/
abbrev Scan : Type := List UInt8 → List Part × List UInt8

/-- One scan after the other. -/
def Scan.then (first second : Scan) : Scan := fun bytes =>
  let found := first bytes
  let others := second found.2
  (found.1 ++ others.1, others.2)

/-- The same scan a number of times. -/
def Scan.repeated (scan : Scan) : Nat → Scan
  | 0 => fun bytes => ([], bytes)
  | count + 1 => scan.then (scan.repeated count)

namespace Node

mutual

/-- The parts of a plain tree in a byte order. -/
def scan (order : ByteOrder) : Node → Scan
  | .mk kind _ _ payload =>
    match kind with
    | .order inner children => scanAll inner children
    | .group children => scanAll order children
    | .int kind => fun bytes =>
      let count := (kind.decode order (bytes.take kind.width)).toNat
      scanPayload order count payload (bytes.drop kind.width)
    | .float kind => fun bytes =>
      ([.float kind order (bytes.take kind.width)], bytes.drop kind.width)
    | _ => fun bytes => ([], bytes)
termination_by structural node => node

/-- The parts of what an integer announces. -/
def scanPayload (order : ByteOrder) (count : Nat) : Payload → Scan
  | .none => fun bytes => ([], bytes)
  | .text text => fun bytes =>
    match text.kind with
    | .text encoding => ([.text encoding (bytes.take count)], bytes.drop count)
    | _ => ([], bytes)
  | .sequence elements => (scanAll order elements).repeated count
termination_by structural payload => payload

def scanAll (order : ByteOrder) : List Node → Scan
  | [] => fun bytes => ([], bytes)
  | node :: rest => (scan order node).then (scanAll order rest)
termination_by structural nodes => nodes

end

end Node

/-- The parts of a file. The byte order above the root is of no account, since no field is read
unless it lies below a byte order of the layout. -/
def Schema.parts (schema : Schema) (bytes : List UInt8) : List Part :=
  (schema.root.scan .big bytes).1

/-- Whether all parts that a scan finds are well formed. -/
def Scan.Sound (scan : Scan) (bytes : List UInt8) : Prop := ∀ part ∈ (scan bytes).1, part.WellFormed

theorem Scan.sound_then {first second : Scan} {bytes : List UInt8} :
    (first.then second).Sound bytes ↔ first.Sound bytes ∧ second.Sound (first bytes).2 :=
  List.forall_mem_append

namespace Read

/-! ## Parsing single steps -/

namespace Plan

variable {α β : Type} {bytes rest : List UInt8}

@[simp] theorem parse_pure {a b : α} :
    (Pure.pure a : Plan α).parse bytes = .ok (b, rest) ↔ a = b ∧ bytes = rest := by
  show Except.ok (a, bytes) = _ ↔ _
  simp

@[simp] theorem parse_ofExcept {result : Except Error α} {a : α} :
    (ofExcept result).parse bytes = .ok (a, rest) ↔ result = .ok a ∧ bytes = rest := by
  cases result with
  | ok b => exact parse_pure.trans (by simp)
  | error error => exact ⟨fun h => (nomatch h), fun h => (nomatch h.1)⟩

@[simp] theorem parse_event {e : Event} {done : Unit} :
    (event e).parse bytes = .ok (done, rest) ↔ bytes = rest :=
  parse_pure.trans (by simp)

@[simp] theorem parse_field {path kind : String} {done : Unit} :
    (field path kind).parse bytes = .ok (done, rest) ↔ bytes = rest :=
  parse_pure.trans (by simp)

theorem consume_eq_ok {count : Nat} {first : List UInt8} :
    consume count (fun first rest => .ok (first, rest)) bytes = .ok (first, rest) ↔
      bytes = first ++ rest ∧ first.length = count := by
  unfold consume
  by_cases hcount : count ≤ bytes.length
  · rw [if_pos hcount, Except.ok.injEq, Prod.mk.injEq]
    constructor
    · rintro ⟨rfl, rfl⟩
      exact ⟨(List.take_append_drop count bytes).symm, List.length_take_of_le hcount⟩
    · rintro ⟨rfl, rfl⟩
      exact ⟨List.take_left, List.drop_left⟩
  · rw [if_neg hcount]
    constructor
    · intro h
      cases h
    · rintro ⟨rfl, rfl⟩
      exact absurd (by simp) hcount

@[simp] theorem parse_fetch {count : Nat} {first : List UInt8} :
    (fetch count).parse bytes = .ok (first, rest) ↔ bytes = first ++ rest ∧ first.length = count :=
  consume_eq_ok

@[simp] theorem parse_read {count : Nat} {first : List UInt8} :
    (read count).parse bytes = .ok (first, rest) ↔ bytes = first ++ rest ∧ first.length = count :=
  consume_eq_ok

end Plan

/-! ## Parsing fields -/

namespace Pass

variable {pass : Pass} {scope : Scope} {name : Option String} {record : Fields Value}
  {bytes rest : List UInt8} {kept : Kept}

/-- The bytes of an integer come first. -/
theorem integer_of_parse {kind : IntKind} {n : Int}
    (h : (integer kind scope).parse bytes = .ok (n, rest)) :
    ∃ order, scope.fieldOrder kind.label = .ok order ∧ kind.Holds n ∧
      bytes = kind.encode order n ++ rest := by
  unfold integer at h
  simp only [Plan.parse_bind_eq_ok, Plan.parse_ofExcept, Plan.parse_field, Plan.parse_fetch,
    Plan.parse_pure] at h
  obtain ⟨order, _, ⟨horder, rfl⟩, _, _, rfl, first, _, ⟨rfl, hlength⟩, rfl, rfl⟩ := h
  obtain ⟨hholds, hfirst⟩ := IntKind.encode_decode order hlength
  exact ⟨order, horder, hholds, by rw [hfirst]⟩

theorem int_of_parse {kind : IntKind}
    (h : (pass.int kind name scope none record).parse bytes = .ok (kept, rest)) :
    ∃ order n, scope.fieldOrder kind.label = .ok order ∧ kind.Holds n ∧
      bytes = kind.encode order n ++ rest ∧ kept = keep name record (.int n) := by
  unfold int at h
  simp only [Plan.parse_bind_eq_ok, settle_none, Plan.parse_pure] at h
  obtain ⟨n, _, hn, rfl, rfl⟩ := h
  obtain ⟨order, horder, hholds, hbytes⟩ := integer_of_parse hn
  exact ⟨order, n, horder, hholds, hbytes, rfl⟩

/-- The bytes of a float come first. -/
theorem float_of_parse {kind : FloatKind}
    (h : (pass.float kind name scope none record).parse bytes = .ok (kept, rest)) :
    ∃ order first, scope.fieldOrder kind.label = .ok order ∧ first.length = kind.width ∧
      bytes = first ++ rest ∧ kept = keep name record (kind.decode order first) := by
  unfold float at h
  simp only [Plan.parse_bind_eq_ok, Plan.parse_ofExcept, Plan.parse_field, Plan.parse_fetch,
    settle_none, Plan.parse_pure] at h
  obtain ⟨order, _, ⟨horder, rfl⟩, _, _, rfl, first, _, ⟨rfl, hlength⟩, rfl, rfl⟩ := h
  exact ⟨order, first, horder, hlength, rfl, rfl⟩

theorem countOf_eq_ok {n : Int} {count : Nat} (h : countOf scope n = .ok count) : n = count := by
  unfold countOf at h
  split at h
  · cases h
  · next hn =>
    cases h
    exact (Int.toNat_of_nonneg (Int.not_lt.mp hn)).symm

/-- The length of a text comes first, and then its bytes. -/
theorem string_of_parse {kind : IntKind} {encoding : TextEncoding} {textName : Option String}
    {textDefault : Option Value} {payload : Payload}
    (h : (pass.string kind (.mk (.text encoding) textName textDefault payload) name scope none
      record).parse bytes = .ok (kept, rest)) :
    ∃ order content, scope.fieldOrder kind.label = .ok order ∧ kind.Holds content.length ∧
      bytes = kind.encode order content.length ++ (content ++ rest) ∧
      kept = keep name record (.string (encoding.decode content)) := by
  unfold string at h
  simp only [Node.kind, Plan.parse_bind_eq_ok, Plan.parse_ofExcept, Plan.parse_read, settle_none,
    Plan.parse_pure] at h
  obtain ⟨n, _, hn, length, _, ⟨hcount, rfl⟩, content, _, ⟨rfl, rfl⟩, rfl, rfl⟩ := h
  obtain rfl := countOf_eq_ok hcount
  obtain ⟨order, horder, hholds, rfl⟩ := integer_of_parse hn
  exact ⟨order, content, horder, hholds, rfl, rfl⟩

/-! ## Parsing sequences -/

/-- What is read for one item. -/
def readItem (elements : List Node) (scope : Scope)
    (content : Scope → Option Transform → Plan (List Value × Fields Value)) (index : Nat) :
    Plan Value := do
  let (results, record) ← content (scope.item index) none
  .event (.itemDone scope.trail index)
  return Node.itemValue elements record results

/-- Items come one after the other, as many as there are to be read. -/
theorem collect_of_parse {item : Nat → Plan Value} {scan : Scan}
    {P : Nat → Value → List UInt8 → Prop}
    (hitem : ∀ index bytes value rest, (item index).parse bytes = .ok (value, rest) →
      scan.Sound bytes →
        (scan bytes).2 = rest ∧ ∃ used, bytes = used ++ rest ∧ P index value used) :
    ∀ (count index : Nat) (before items : List Value) (bytes rest : List UInt8),
      Plan.parse (Dialogue.collect item count index before) bytes = .ok (items, rest) →
      (scan.repeated count).Sound bytes →
        (scan.repeated count bytes).2 = rest ∧ ∃ values chunks, items = before.reverse ++ values ∧
          values.length = count ∧ values.length = chunks.length ∧
          bytes = List.flatten chunks ++ rest ∧
          ∀ i value chunk, values[i]? = some value → chunks[i]? = some chunk →
            P (index + i) value chunk
  | 0, index, before, items, bytes, rest, hparse, _ => by
    obtain ⟨rfl, rfl⟩ := Plan.parse_pure.mp hparse
    exact ⟨rfl, [], [], (List.append_nil _).symm, rfl, rfl, rfl, fun _ _ _ hvalue => nomatch hvalue⟩
  | count + 1, index, before, items, bytes, rest, hparse, hsound => by
    obtain ⟨value, middle, hfirst, hothers⟩ := Plan.parse_bind_eq_ok.mp hparse
    obtain ⟨hsoundFirst, hsoundOthers⟩ := Scan.sound_then.mp hsound
    obtain ⟨hmiddle, used, hused, hreads⟩ := hitem index bytes value middle hfirst hsoundFirst
    rw [← hmiddle] at hothers
    obtain ⟨hrest, values, chunks, rfl, rfl, hlength, hchunks, hreadsOthers⟩ :=
      collect_of_parse hitem count (index + 1) (value :: before) items _ rest hothers hsoundOthers
    refine ⟨hrest, value :: values, used :: chunks, by simp, rfl, congrArg (· + 1) hlength, ?_, ?_⟩
    · rw [List.flatten_cons, List.append_assoc, ← hchunks, hmiddle, ← hused]
    · rintro (_ | i) other chunk hvalue hchunk
      · cases hvalue
        cases hchunk
        exact hreads
      · rw [← Nat.add_assoc, Nat.add_right_comm]
        exact hreadsOthers i other chunk hvalue hchunk

/-- The count of a sequence comes first, and then its items. -/
theorem sequence_of_parse {kind : IntKind} {elements : List Node}
    {content : Scope → Option Transform → Plan (List Value × Fields Value)}
    (h : (pass.sequence kind elements name scope none record content).parse bytes =
      .ok (kept, rest)) :
    ∃ order count middle items, scope.fieldOrder kind.label = .ok order ∧
      kind.Holds (count : Nat) ∧ bytes = kind.encode order count ++ middle ∧
      Plan.parse (Dialogue.collect (readItem elements scope content) count 0 []) middle =
        .ok (items, rest) ∧ kept = keep name record (.list items) := by
  have hname : (name.bind fun name => (none : Option Transform).bind (·.field? name)) = none := by
    cases name <;> rfl
  unfold sequence at h
  rw [hname] at h
  simp only [Plan.parse_bind_eq_ok, Plan.parse_ofExcept, Plan.parse_pure] at h
  obtain ⟨n, middle, hn, count, _, ⟨hcount, rfl⟩, items, _, hitems, rfl, rfl⟩ := h
  obtain rfl := countOf_eq_ok hcount
  obtain ⟨order, horder, hholds, hbytes⟩ := integer_of_parse hn
  exact ⟨order, count, middle, items, horder, hholds, hbytes, hitems, rfl⟩

end Pass

end Read

end ByteLayout
