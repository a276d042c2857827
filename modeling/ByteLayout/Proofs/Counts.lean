import ByteLayout.Proofs.Scanning

/-!
# Counts

Before the items of a sequence its count is written. A list counts its items; a lazy sequence
declares a number, and the writer takes any that the kind of the integer holds. A signed kind holds
negative numbers too, and a reader refuses these as counts.

**Theorem (`parse_count`).** The bytes of a number are read as a count exactly if the number is not
negative.

**Theorem (`count_read_back`).** The count of a sequence, wherever its items come from, is the
number that is declared, and it is read back if it is not negative. A negative one comes from a lazy
sequence behind a signed integer.
-/

namespace ByteLayout

/-- The count that a provider declares, of which a lazy sequence makes one in a context. -/
def Provider.declared? (context : FieldContext) : Provider → Option Value
  | list items => some (.int items.length)
  | lazy generate => some (generate context).value.count
  | _ => none

namespace Read

/-- The count of a sequence. -/
def Pass.count (kind : IntKind) (scope : Scope) : Plan Nat := do
  let n ← integer kind scope
  .ofExcept (countOf scope n)

/-- The items of a sequence, as many as its count says. -/
def Pass.items (pass : Pass) (elements : List Node) (name : Option String) (scope : Scope)
    (transform : Option Transform) (record : Fields Value)
    (content : Scope → Option Transform → Plan (List Value × Fields Value)) (count : Nat) :
    Plan Kept := do
  let ofName := name.bind fun name => transform.bind (·.field? name)
  let perField := ofName.filter fun transform => transform.function?.isNone
  let items ← .collect count fun index => do
    let (results, itemRecord) ← content (scope.item index) perField
    let value ← pass.transformed ofName (scope.item index) record
      (Node.itemValue elements itemRecord results)
    .event (.itemDone scope.trail index)
    return value
  return keep name record (.list items)

namespace Pass

variable {scope : Scope} {kind : IntKind} {order : ByteOrder}

/-- An integer is parsed from its bytes. -/
theorem parse_integer (horder : scope.fieldOrder kind.label = .ok order) {n : Int}
    (hn : kind.Holds n) (rest : List UInt8) :
    (integer kind scope).parse (kind.encode order n ++ rest) = .ok (n, rest) := by
  unfold integer
  simp only [Plan.parse_bind_eq_ok, Plan.parse_ofExcept, Plan.parse_field, Plan.parse_fetch,
    Plan.parse_pure]
  exact ⟨order, _, ⟨horder, rfl⟩, (), _, rfl, kind.encode order n, rest,
    ⟨rfl, IntKind.length_encode kind order n⟩, IntKind.decode_encode order hn, rfl⟩

/-- **A number is read as a count exactly if it is not negative.** -/
theorem parse_count (horder : scope.fieldOrder kind.label = .ok order) {n : Int}
    (hn : kind.Holds n) (rest : List UInt8) :
    (count kind scope).parse (kind.encode order n ++ rest) =
      if n < 0 then .error (some (.invalidValue scope.trail (.invalidCount n)))
      else .ok (n.toNat, rest) := by
  unfold count
  rw [Plan.parse_bind, parse_integer horder hn]
  show Plan.parse (.ofExcept (countOf scope n)) rest = _
  unfold countOf
  split <;> rfl

/-- A sequence is parsed as its count, and then its items. -/
theorem parse_sequence (pass : Pass) (elements : List Node) (name : Option String)
    (transform : Option Transform) (record : Fields Value)
    (content : Scope → Option Transform → Plan (List Value × Fields Value))
    (bytes : List UInt8) :
    (pass.sequence kind elements name scope transform record content).parse bytes =
      ((count kind scope).parse bytes).bind fun parsed =>
        (pass.items elements name scope transform record content parsed.1).parse parsed.2 := by
  unfold sequence count
  rw [Plan.parse_bind, Plan.parse_bind]
  cases (integer kind scope).parse bytes with
  | error error => rfl
  | ok parsed => exact Plan.parse_bind _ _ _

end Pass

end Read

namespace Write

/-- The bytes of a scalar. -/
def Step.scalar? : Step → Option (List UInt8)
  | scalar bytes => some bytes
  | _ => none

namespace Script

variable {α β : Type}

/-- The bytes of the first scalar of a script. -/
def firstScalar? (script : Script α) : Option (List UInt8) := script.steps.findSome? Step.scalar?

theorem Silent.firstScalar?_eq_none {script : Script α} (h : script.Silent) :
    script.firstScalar? = none :=
  List.findSome?_eq_none_iff.mpr fun step hstep => by
    obtain ⟨event, rfl, -⟩ := h step hstep
    rfl

/-- Before anything was written, there is no scalar. -/
theorem Silent.firstScalar?_bind {script : Script α} {f : α → Script β} {bytes : List UInt8}
    (h : script.Silent) (hbytes : (script >>= f).firstScalar? = some bytes) :
    ∃ a, script.outcome = .ok a ∧ (f a).firstScalar? = some bytes := by
  have hnone := h.firstScalar?_eq_none
  unfold firstScalar? at hbytes hnone ⊢
  cases hout : script.outcome with
  | ok a =>
    rw [steps_bind_of_ok hout, List.findSome?_append, hnone, Option.none_or] at hbytes
    exact ⟨a, rfl, hbytes⟩
  | error error =>
    rw [steps_bind_of_error hout, hnone] at hbytes
    cases hbytes

end Script

namespace Pass

variable {pass : Pass} {scope : Scope} {input : Input} {record : Fields Value}

theorem countOf_eq_ok {kind : IntKind} {count : Value} {n : Int} (h : countOf kind count = .ok n) :
    count.toInteger = .ok n ∧ kind.Holds n := by
  unfold countOf at h
  split at h
  · next m hm =>
    obtain rfl := Except.ok.inj h
    exact IntKind.holds_of_check hm
  · cases h

/-- What is supplied has the count that is declared. -/
theorem supply_eq_ok {provider : Provider} {supply : Supply}
    (h : (pass.supply scope record provider).outcome = .ok supply) :
    provider.declared? (scope.context pass.user record) = some supply.count ∧
      ((∃ items, provider = .list items) ∨ ∃ generate, provider = .lazy generate) := by
  cases provider with
  | list items =>
    obtain rfl := Except.ok.inj h
    exact ⟨rfl, .inl ⟨items, rfl⟩⟩
  | lazy generate =>
    obtain ⟨sequence, hsequence, h⟩ := Script.outcome_bind_eq_ok.mp h
    obtain ⟨_, -, h⟩ := Script.outcome_bind_eq_ok.mp h
    rw [Script.outcome_called] at hsequence
    obtain rfl := Except.ok.inj hsequence
    obtain rfl := Except.ok.inj h
    exact ⟨rfl, .inr ⟨generate, rfl⟩⟩
  | value value => cases h
  | record fields => cases h
  | computed f => cases h

/-- The first scalar of a sequence is its count. -/
theorem firstScalar?_sequence {kind : IntKind} {elements : List Node} {name : Option String}
    {default : Option Value} {content : Scope → Provider → Script (List Value × Fields Value)}
    {bytes : List UInt8}
    (h : (pass.sequence kind elements name default scope input record content).firstScalar? =
      some bytes) :
    ∃ order provider supply n, scope.fieldOrder kind.label = .ok order ∧
      (pass.supplier name default scope input record).outcome = .ok provider ∧
      (pass.supply scope record provider).outcome = .ok supply ∧
      countOf kind supply.count = .ok n ∧ bytes = kind.encode order n := by
  unfold sequence at h
  obtain ⟨order, horder, h⟩ := (Script.silent_of_no_steps rfl).firstScalar?_bind h
  obtain ⟨provider, hprovider, h⟩ :=
    Script.Silent.firstScalar?_bind (pass.silent_supplier _ _ _ _ _) h
  obtain ⟨supply, hsupply, h⟩ := Script.Silent.firstScalar?_bind (pass.silent_supply _ _ _) h
  obtain ⟨n, hn, h⟩ :=
    (Script.silent_of_no_steps (Script.steps_ofCheck _ _)).firstScalar?_bind h
  exact ⟨order, provider, supply, n, horder, hprovider, hsupply,
    Script.outcome_ofCheck_eq_ok.mp hn, (Option.some.inj h).symm⟩

/-- **A count is read back unless it is negative.** When a pass comes to a sequence, whatever its
provider, and a scalar is written for it, then the first one is the count that is declared, by the
length of a list or by a lazy sequence. A reader takes these bytes, and whatever follows them, for
that count if it is not negative, and otherwise refuses it. A negative count is the doing of a lazy
sequence, behind an integer of a signed kind. -/
theorem count_read_back {site : Site} {kind : IntKind} {name : Option String}
    {default : Option Value} {elements : List Node} {bytes : List UInt8}
    (h : (pass.walk site scope input record
      (.mk (.int kind) name default (.sequence elements))).firstScalar? = some bytes) :
    let here := scope.field (Node.label (.mk (.int kind) name default (.sequence elements)))
    ∃ order provider count n,
      here.fieldOrder kind.label = .ok order ∧
      (pass.supplier name default here input record).outcome = .ok provider ∧
      provider.declared? (here.context pass.user record) = some count ∧
      count.toInteger = .ok n ∧ kind.Holds n ∧ bytes = kind.encode order n ∧
      (∀ there : Scope, there.fieldOrder kind.label = .ok order → ∀ rest,
        (Read.Pass.count kind there).parse (bytes ++ rest) =
          if n < 0 then .error (some (.invalidValue there.trail (.invalidCount n)))
          else .ok (n.toNat, rest)) ∧
      (n < 0 → kind.isUnsigned = false ∧ ∃ generate, provider = .lazy generate) := by
  rw [walk] at h
  obtain ⟨order, provider, supply, n, horder, hprovider, hsupply, hcount, rfl⟩ :=
    firstScalar?_sequence h
  obtain ⟨hinteger, hholds⟩ := countOf_eq_ok hcount
  obtain ⟨hdeclared, horigin⟩ := supply_eq_ok hsupply
  refine ⟨order, provider, supply.count, n, horder, hprovider, hdeclared, hinteger, hholds,
    rfl, fun there hthere rest => Read.Pass.parse_count hthere hholds rest, fun hnegative => ?_⟩
  constructor
  · have hmin := hholds.1
    unfold IntKind.min at hmin
    cases hkind : kind.isUnsigned with
    | true =>
      rw [hkind, if_pos rfl] at hmin
      omega
    | false => rfl
  · rcases horigin with ⟨items, rfl⟩ | horigin
    · obtain rfl := Except.ok.inj ((congrArg Value.toInteger (Option.some.inj hdeclared)).trans
        hinteger)
      omega
    · exact horigin

/-- Bytes behind a signed count. -/
def tally : Node := ((Node.ofKind (.int .i8)).named "s").withSequence [byteField "x"]

/-- The place of a tally in a file. -/
def tallyScope : Scope := { Scope.base "" with order := some .big, trail := "out", file := "out" }

/-- A lazy sequence that declares one item less than none, and has none. -/
def debt : LazySequence Provider :=
  { count := .int (-1), length := 0, item := fun _ => ⟨.empty, []⟩ }

theorem count_read_back_debt :
    (Pass.walk { user := .null, nest := false } .root tallyScope
      (.within (.record [("s", .lazy fun _ => ⟨debt, []⟩)])) [] tally).firstScalar? =
        some [255] ∧
    (Read.Pass.count .i8 (tallyScope.field "s")).parse [255] =
      .error (some (.invalidValue "out/s" (.invalidCount (-1)))) := by
  have hfirst : (Pass.walk { user := .null, nest := false } .root tallyScope
      (.within (.record [("s", .lazy fun _ => ⟨debt, []⟩)])) [] tally).firstScalar? =
        some [255] := rfl
  refine ⟨hfirst, ?_⟩
  obtain ⟨order, provider, count, n, horder, hprovider, hdeclared, hinteger, -, -, hread, -⟩ :=
    count_read_back hfirst
  obtain rfl := Except.ok.inj hprovider
  obtain rfl := Option.some.inj hdeclared
  obtain rfl := Except.ok.inj hinteger
  exact hread (tallyScope.field "s") horder []

end Pass

end Write

end ByteLayout
