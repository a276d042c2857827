import ByteLayout.Proofs.Putting
import ByteLayout.Proofs.Scanning

/-!
# Writing back what was read

**Theorem (`Schema.write_read`).** If a read pass of a plain layout has read a record, and all
floats and texts that it found are well formed, then the record can be written, and what is written
are the bytes that were read.

A field is written back from the value that was read for it (`Restores`), and a tree from every
record that has, under the names of its fields, what was read there (`Pass.entries_restores`). The
names of a record are distinct, so that what was read for one field is still there at the end.
-/

namespace ByteLayout

/-! ## Accepted layouts -/

namespace Node

mutual

/-- Whether the items of all sequences in a plain tree have distinct names, as far as they are
records. -/
def Distinct : Node → Prop
  | .mk kind _ _ payload => DistinctPayload payload ∧ DistinctKind kind

def DistinctPayload : Payload → Prop
  | .sequence elements => (elements.all isKeyed → (namesAll elements).Nodup) ∧ DistinctAll elements
  | _ => True

def DistinctKind : Kind → Prop
  | .order _ children => DistinctAll children
  | .group children => DistinctAll children
  | _ => True

def DistinctAll : List Node → Prop
  | [] => True
  | node :: rest => Distinct node ∧ DistinctAll rest

end

theorem bind_unit_eq_ok {first second : Except Error Unit} :
    (first >>= fun _ => second) = .ok () ↔ first = .ok () ∧ second = .ok () := by
  cases first <;> simp [bind, Except.bind]

/-- What is accepted is accepted by itself, and so are its payload and its children. -/
theorem check_eq_ok {site : Site} {kind : Kind} {name : Option String} {default : Option Value}
    {payload : Payload} (h : check site (mk kind name default payload) = .ok ()) :
    let node := mk kind name default payload
    checkKind site node = .ok () ∧
      checkBelow (site.below .payload node) (site.below .element node) payload = .ok () ∧
      checkKindBelow (site.below .child node) kind = .ok () := by
  rw [check] at h
  simp only [bind_unit_eq_ok] at h
  exact ⟨h.1, h.2.2⟩

/-- A field that is no element has a name. -/
theorem exists_name_of_check {site : Site} {kind : Kind} {name : Option String}
    {default : Option Value} {payload : Payload}
    (h : check site (mk kind name default payload) = .ok ()) (hfield : kind.isField = true)
    (hplace : site.placement = .element → isKeyed (mk kind name default payload)) :
    ∃ key, name = some key := by
  cases name with
  | some key => exact ⟨key, rfl⟩
  | none =>
    have hchecked := (check_eq_ok h).1
    by_cases hsite : site.placement = .element
    · simp [isKeyed, Node.name, Node.kind, hfield] at hplace
      exact absurd hsite hplace
    · simp [checkKind, Node.name, Node.kind, hfield, hsite] at hchecked

end Node

/-! ## Records that grow -/

namespace Fields

variable {α : Type} {before middle after : Fields α} {names others : List String}

/-- Whether a record has something new under some names, and otherwise what it had before. -/
structure Gains (names : List String) (before after : Fields α) : Prop where
  gained : ∀ name ∈ names, ∃ entry, get? after name = some entry
  kept : ∀ name ∉ names, get? after name = get? before name

theorem gains_nil (before : Fields α) : Gains [] before before :=
  ⟨fun _ h => absurd h List.not_mem_nil, fun _ _ => rfl⟩

theorem gains_insert (before : Fields α) (name : String) (entry : α) :
    Gains [name] before (insert before name entry) := by
  refine ⟨fun other hother => ⟨entry, ?_⟩, fun other hother => ?_⟩
  · rw [List.mem_singleton.mp hother, get?_insert_self]
  · exact get?_insert_of_ne before entry fun h => hother (List.mem_singleton.mpr h.symm)

/-- A record that gained something is not empty. -/
theorem Gains.ne_nil (h : Gains names before after) (hnames : names ≠ []) : after ≠ [] := by
  obtain ⟨name, hname⟩ := List.exists_mem_of_ne_nil names hnames
  rintro rfl
  obtain ⟨entry, hentry⟩ := h.gained name hname
  cases hentry

theorem Gains.append (h : Gains names before middle) (h' : Gains others middle after) :
    Gains (names ++ others) before after := by
  refine ⟨fun name hname => ?_, fun name hname => ?_⟩
  · by_cases hother : name ∈ others
    · exact h'.gained name hother
    · rw [h'.kept name hother]
      exact h.gained name ((List.mem_append.mp hname).resolve_right hother)
  · rw [List.mem_append, not_or] at hname
    rw [h'.kept name hname.2, h.kept name hname.1]

/-- Whether two records have the same under some names. -/
def Agree (names : List String) (source record : Fields α) : Prop :=
  ∀ name ∈ names, get? source name = get? record name

/-- A record that agrees with a later one agrees with an earlier one where nothing was gained in
between. -/
theorem Agree.earlier {source : Fields α} (h : Agree (names ++ others) source after)
    (hgains : Gains others middle after) (hdisjoint : names.Disjoint others) :
    Agree names source middle := fun name hname => by
  rw [h name (List.mem_append_left _ hname), hgains.kept name (hdisjoint hname)]

end Fields

/-! ## Scopes of both passes -/

/-- The scopes of a read pass and of a write pass at the same place, where the byte order, if there
is one, is that in which the bytes are scanned. -/
structure Scope.Along (order : ByteOrder) (scope other : Scope) : Prop where
  mirrors : scope.Mirrors False other
  order : ∀ given, scope.order = some given → given = order

namespace Scope.Along

variable {order : ByteOrder} {scope other : Scope}

theorem withOrder (h : scope.Along order other) (inner : ByteOrder) :
    (scope.withOrder inner).Along inner (other.withOrder inner) :=
  ⟨h.mirrors.withOrder inner, fun _ hgiven => (Option.some.inj hgiven).symm⟩

theorem field (h : scope.Along order other) (segment : String) :
    (scope.field segment).Along order (other.field segment) :=
  ⟨h.mirrors.field segment, h.order⟩

theorem item (h : scope.Along order other) (index : Nat) :
    (scope.item index).Along order (other.item index) :=
  ⟨h.mirrors.item index, h.order⟩

theorem fieldOrder (h : scope.Along order other) {kind : String} {given : ByteOrder}
    (hgiven : scope.fieldOrder kind = .ok given) :
    given = order ∧ other.fieldOrder kind = .ok given := by
  refine ⟨h.order given ?_, h.mirrors.fieldOrder hgiven⟩
  unfold Scope.fieldOrder Scope.requireOrder at hgiven
  cases hfile : scope.file with
  | none => simp [hfile] at hgiven
  | some path =>
    cases horder : scope.order with
    | none => simp [hfile, horder] at hgiven
    | some found => simpa [hfile, horder] using hgiven

end Scope.Along

open Read Write

namespace Rewriting

/-! ## Fields -/

/-- From all inputs that are accepted, a script puts the first of some bytes, up to the rest. -/
def WritesBack {ι α : Type} (bytes rest : List UInt8) (accepts : ι → Prop) (script : ι → Script α)
    (result : α) : Prop :=
  ∃ used, bytes = used ++ rest ∧ ∀ input, accepts input → (script input).Puts result used

/-- A field kept what was read, and is written back from an input that has it. -/
def Restores (name : Option String) (record : Fields Value) (kept : Kept)
    (bytes rest : List UInt8) (script : Input → Script Kept) : Prop :=
  kept = keep name record kept.1 ∧
    WritesBack bytes rest (fun input => input.lookup? name = some (.ofValue kept.1)) script kept

section

variable {pass : Read.Pass} {other : Write.Pass} {order : ByteOrder} {scope wscope : Scope}
  {name : Option String} {default : Option Value} {record : Fields Value}
  {bytes rest : List UInt8} {kept : Kept}

theorem restores_keep {value : Value} {used : List UInt8} {script : Input → Script Kept}
    (h : ∀ input, input.lookup? name = some (.ofValue value) →
      (script input).Puts (keep name record value) used) :
    Restores name record (keep name record value) (used ++ rest) rest script := by
  have hvalue := keep_fst name record value
  exact ⟨by rw [hvalue], used, rfl, fun input hinput => h input (by rwa [hvalue] at hinput)⟩

theorem int_restores (h : scope.Along order wscope) {kind : IntKind}
    (hparse : (pass.int kind name scope none record).parse bytes = .ok (kept, rest)) :
    rest = bytes.drop kind.width ∧ Restores name record kept bytes rest fun input =>
      other.int kind name default wscope input record := by
  obtain ⟨given, n, hgiven, hholds, rfl, rfl⟩ := Read.Pass.int_of_parse hparse
  refine ⟨(List.drop_left' (kind.length_encode given n)).symm, restores_keep fun input hinput => ?_⟩
  exact Write.Pass.int_puts (h.fieldOrder hgiven).2 hinput hholds

theorem float_restores (h : scope.Along order wscope) {kind : FloatKind}
    (hparse : (pass.float kind name scope none record).parse bytes = .ok (kept, rest))
    (hpart : Part.WellFormed (.float kind order (bytes.take kind.width))) :
    rest = bytes.drop kind.width ∧ Restores name record kept bytes rest fun input =>
      other.float kind name default wscope input record := by
  obtain ⟨given, first, hgiven, hlength, rfl, rfl⟩ := Read.Pass.float_of_parse hparse
  obtain ⟨rfl, hwritten⟩ := h.fieldOrder hgiven
  rw [List.take_left' hlength] at hpart
  obtain ⟨x, hx, hrepresents, rfl⟩ := FloatKind.encode_decode given hlength hpart
  rw [hx]
  refine ⟨(List.drop_left' hlength).symm, restores_keep fun input hinput => ?_⟩
  exact Write.Pass.float_puts hwritten hinput hrepresents

/-- Scanning goes over an integer. -/
theorem scan_integer {kind : IntKind} {n : Int} (hn : kind.Holds n) (payload : Payload) :
    Node.scan order (.mk (.int kind) name default payload) (kind.encode order n ++ rest) =
      Node.scanPayload order n.toNat payload rest := by
  have hlength := kind.length_encode order n
  rw [Node.scan]
  dsimp only
  rw [List.take_left' hlength, List.drop_left' hlength, IntKind.decode_encode order hn]

theorem string_restores (h : scope.Along order wscope) {kind : IntKind} {encoding : TextEncoding}
    {textName : Option String} {textDefault : Option Value}
    (hparse : (pass.string kind (.mk (.text encoding) textName textDefault .none) name scope none
      record).parse bytes = .ok (kept, rest))
    (hsound : Scan.Sound (Node.scan order (.mk (.int kind) name default
      (.text (.mk (.text encoding) textName textDefault .none)))) bytes) :
    (Node.scan order (.mk (.int kind) name default
      (.text (.mk (.text encoding) textName textDefault .none))) bytes).2 = rest ∧
    Restores name record kept bytes rest fun input =>
      other.string kind (.mk (.text encoding) textName textDefault .none) name default wscope input
        record := by
  obtain ⟨given, content, hgiven, hholds, rfl, rfl⟩ := Read.Pass.string_of_parse hparse
  obtain ⟨rfl, hwritten⟩ := h.fieldOrder hgiven
  unfold Scan.Sound at hsound
  rw [scan_integer hholds] at hsound ⊢
  have hpart : Part.WellFormed (.text encoding content) := by
    refine hsound _ ?_
    simp [Node.scanPayload, Node.kind]
  refine ⟨by simp [Node.scanPayload, Node.kind], ?_⟩
  rw [← List.append_assoc]
  refine restores_keep fun input hinput => ?_
  exact Write.Pass.string_puts hwritten hinput (TextEncoding.encode_decode hpart) hholds

/-! ## Sequences -/

theorem sequence_restores (h : scope.Along order wscope) {kind : IntKind} {elements : List Node}
    {content : Scope → Option Transform → Plan (List Value × Fields Value)}
    {written : Scope → Provider → Script (List Value × Fields Value)}
    (hitem : ∀ index {results after bytes rest},
      (content (scope.item index) none).parse bytes = .ok ((results, after), rest) →
      (Node.scanAll order elements).Sound bytes →
        (Node.scanAll order elements bytes).2 = rest ∧
        WritesBack bytes rest (· = .ofValue (Node.itemValue elements after results))
          (written (wscope.item index)) (results, after))
    (hparse : (pass.sequence kind elements name scope none record content).parse bytes =
      .ok (kept, rest))
    (hsound : Scan.Sound (Node.scan order (.mk (.int kind) name default (.sequence elements)))
      bytes) :
    (Node.scan order (.mk (.int kind) name default (.sequence elements)) bytes).2 = rest ∧
    Restores name record kept bytes rest fun input =>
      other.sequence kind elements name default wscope input record written := by
  obtain ⟨given, count, middle, items, hgiven, hholds, rfl, hcollect, rfl⟩ :=
    Read.Pass.sequence_of_parse hparse
  obtain ⟨rfl, hwritten⟩ := h.fieldOrder hgiven
  unfold Scan.Sound at hsound
  rw [scan_integer hholds, Node.scanPayload, Int.toNat_natCast] at hsound ⊢
  obtain ⟨hrest, values, chunks, rfl, rfl, hlength, rfl, hitems⟩ :=
    Read.Pass.collect_of_parse
      (P := fun index item used => ∃ results after,
        (written (wscope.item index) (.ofValue item)).Puts (results, after) used ∧
          Node.itemValue elements after results = item)
      (fun index bytes item rest hparse hsound => by
        simp only [Read.Pass.readItem, Plan.parse_bind_eq_ok, Plan.parse_event, Plan.parse_pure]
          at hparse
        obtain ⟨⟨results, after⟩, _, hparse, _, _, rfl, rfl, rfl⟩ := hparse
        obtain ⟨hrest, used, hused, hputs⟩ := hitem index hparse hsound
        exact ⟨hrest, used, hused, results, after, hputs _ rfl, rfl⟩)
      count 0 [] items middle rest hcollect hsound
  refine ⟨hrest, ?_⟩
  rw [← List.append_assoc]
  refine restores_keep fun input hinput => ?_
  refine Write.Pass.sequence_puts hwritten hinput hholds hlength
    fun index item chunk hitem hchunk => ?_
  have hputs := hitems index item chunk hitem hchunk
  rwa [Nat.zero_add] at hputs

end

/-! ## Trees -/

theorem arrange_of_parse {walked : Plan (List Value × Fields Value)} {bytes rest : List UInt8}
    {kept : Kept} (h : (Read.Pass.arrange walked).parse bytes = .ok (kept, rest)) :
    ∃ results after, walked.parse bytes = .ok ((results, after), rest) ∧ kept = (.null, after) := by
  simp only [Read.Pass.arrange, Plan.parse_bind_eq_ok, Plan.parse_pure] at h
  obtain ⟨⟨results, after⟩, _, hparse, rfl, rfl⟩ := h
  exact ⟨results, after, hparse, rfl⟩

theorem walkAll_of_parse {pass : Read.Pass} {site : Site} {scope : Scope}
    {record after : Fields Value} {node : Node} {others : List Node} {results : List Value}
    {bytes rest : List UInt8}
    (h : (pass.walkAll site scope none record (node :: others)).parse bytes =
      .ok ((results, after), rest)) :
    ∃ value middle values left, results = value :: values ∧
      (pass.walk site scope none record node).parse bytes = .ok ((value, middle), left) ∧
      (pass.walkAll site scope none middle others).parse left = .ok ((values, after), rest) := by
  simp only [Read.Pass.walkAll, Plan.parse_bind_eq_ok, Plan.parse_pure] at h
  obtain ⟨⟨value, middle⟩, left, hfirst, ⟨values, _⟩, _, hothers, ⟨⟩, rfl⟩ := h
  exact ⟨value, middle, values, left, rfl, hfirst, hothers⟩

theorem walkAll_puts {pass : Write.Pass} {site : Site} {scope : Scope} {inputs : Nat → Input}
    {index : Nat} {record middle after : Fields Value} {node : Node} {others : List Node}
    {value : Value} {values : List Value} {used more : List UInt8}
    (h : (pass.walk site scope (inputs index) record node).Puts (value, middle) used)
    (hothers : (pass.walkAll site scope inputs (index + 1) middle others).Puts (values, after)
      more) :
    (pass.walkAll site scope inputs index record (node :: others)).Puts (value :: values, after)
      (used ++ more) := by
  rw [Write.Pass.walkAll]
  exact h.bind (hothers.map fun _ => _)

/-- An input is a record that agrees with another under some names. -/
def Has (names : List String) (record : Fields Value) (input : Input) : Prop :=
  ∃ source, input = .within (.record (Provider.ofFields source)) ∧ Fields.Agree names source record

/-- Nodes that are arranged are written back as they are by themselves. -/
theorem WritesBack.arrange {names : List String} {after : Fields Value} {results : List Value}
    {bytes rest : List UInt8} {walked : Input → Script (List Value × Fields Value)}
    (h : WritesBack bytes rest (Has names after) walked (results, after)) :
    WritesBack bytes rest (Has names after)
      (fun input => Write.Pass.arrange (walked input.enter)) (.null, after) := by
  obtain ⟨used, hused, hputs⟩ := h
  refine ⟨used, hused, ?_⟩
  rintro _ ⟨source, rfl, hagree⟩
  exact (hputs _ ⟨source, rfl, hagree⟩).map fun _ => _

/-- Elements that are no fields of a record find their values in an item as it was read. -/
theorem lookup?_itemValue {elements : List Node} {after : Fields Value} {results : List Value}
    (hkeyed : ¬elements.all Node.isKeyed) (hlength : results.length = elements.length) :
    ∀ i node value, elements[i]? = some node → results[i]? = some value →
      (Write.Pass.itemInput elements.length (.ofValue (Node.itemValue elements after results))
        (0 + i)).lookup? node.name = some (.ofValue value) := by
  by_cases hlone : elements.length = 1
  · obtain ⟨value, rfl⟩ := List.length_eq_one_iff.mp (hlength.trans hlone)
    rw [Node.itemValue_of_lone hkeyed hlone]
    exact Write.Pass.lookup?_lone hkeyed hlone
  · have hmore := Node.one_lt_length_of_not_keyed hkeyed hlone
    rw [Node.itemValue_of_positions hkeyed hmore]
    exact Write.Pass.lookup?_position hmore

/-- A field with a name is written back from every record that has what was read. -/
theorem Restores.entry {key : String} {record : Fields Value} {kept : Kept}
    {bytes rest : List UInt8} {script : Input → Script Kept}
    (h : Restores (some key) record kept bytes rest script) :
    Fields.Gains [key] record kept.2 ∧ WritesBack bytes rest (Has [key] kept.2) script kept := by
  obtain ⟨hkept, used, hused, hputs⟩ := h
  have hrecord : kept.2 = Fields.insert record key kept.1 := congrArg Prod.snd hkept
  rw [hrecord]
  refine ⟨Fields.gains_insert record key kept.1, used, hused, ?_⟩
  rintro _ ⟨source, rfl, hagree⟩
  refine hputs _ (Provider.lookup?_ofFields ?_)
  rw [hagree key (List.mem_singleton.mpr rfl), Fields.get?_insert_self]

variable (pass : Read.Pass) (other : Write.Pass)

mutual

/-- **An integer with what it announces is written back from what was read.** -/
theorem integer_restores (site wsite : Site) {text element : Site} {order : ByteOrder}
    {scope wscope : Scope} (h : scope.Along order wscope) (kind : IntKind) (name : Option String)
    (default : Option Value) (record : Fields Value) :
    ∀ payload : Payload, Node.PlainPayload payload → Node.DistinctPayload payload →
      Node.checkBelow text element payload = .ok () → ∀ {kept bytes rest},
        (pass.walk site scope none record (.mk (.int kind) name default payload)).parse bytes =
          .ok (kept, rest) →
        Scan.Sound (Node.scan order (.mk (.int kind) name default payload)) bytes →
          (Node.scan order (.mk (.int kind) name default payload) bytes).2 = rest ∧
          Restores name record kept bytes rest fun input =>
            other.walk wsite wscope input record (.mk (.int kind) name default payload)
  | .none => by
    intro _ _ _ kept bytes rest hparse _
    rw [Read.Pass.walk] at hparse
    obtain ⟨hrest, hrestores⟩ := int_restores (h.field _) hparse
    simp only [Write.Pass.walk]
    exact ⟨hrest.symm, hrestores⟩
  | .text text => by
    intro htext _ _ kept bytes rest hparse hsound
    obtain ⟨encoding, textName, textDefault, rfl⟩ := htext.eq
    rw [Read.Pass.walk] at hparse
    simp only [Write.Pass.walk]
    exact string_restores (h.field _) hparse hsound
  | .sequence elements => by
    rintro ⟨hregular, hplain⟩ ⟨hnames, hdistinct⟩ hcheck kept bytes rest hparse hsound
    rw [Read.Pass.walk] at hparse
    simp only [Write.Pass.walk]
    refine sequence_restores (h.field _) (fun index results after bytes rest hparse hsound => ?_)
      hparse hsound
    have hinner :=
      (h.field (Node.mk (.int kind) name default (.sequence elements)).label).item index
    unfold Node.Regular at hregular
    by_cases hkeyed : elements.all Node.isKeyed
    · rw [if_pos hkeyed] at hregular
      obtain ⟨hrest, hgains, used, hused, hputs⟩ := entriesAll_restores _ _ hinner [] 0 elements
        hplain hdistinct (hnames hkeyed) hcheck (fun _ => hkeyed) hparse hsound
      rw [Node.itemValue_of_record results hkeyed (hgains.ne_nil hregular)]
      refine ⟨hrest, used, hused, ?_⟩
      rintro _ rfl
      exact hputs _ ⟨after, rfl, fun _ _ => rfl⟩
    · rw [if_neg hkeyed] at hregular
      obtain ⟨hrest, hlength, used, hused, hputs⟩ := each_restores _ _ hinner elements [] 0 hplain
        hdistinct hcheck hregular hparse hsound
      refine ⟨hrest, used, hused, ?_⟩
      rintro _ rfl
      exact hputs _ (lookup?_itemValue hkeyed hlength)
termination_by structural payload => payload

/-- **A field is written back from what was read.** -/
theorem field_restores (site wsite : Site) {place : Site} {order : ByteOrder}
    {scope wscope : Scope} (h : scope.Along order wscope) (record : Fields Value) :
    ∀ node : Node, node.Plain true → node.Distinct → node.check place = .ok () →
      node.kind.isField = true → ∀ {kept bytes rest},
        (pass.walk site scope none record node).parse bytes = .ok (kept, rest) →
        (node.scan order).Sound bytes →
          (node.scan order bytes).2 = rest ∧ Restores node.name record kept bytes rest fun input =>
            other.walk wsite wscope input record node
  | .mk kind name default payload => by
    rintro ⟨hpayload, hplain⟩ ⟨hdistinct, -⟩ hcheck hfield kept bytes rest hparse hsound
    cases kind with
    | int kind =>
      exact integer_restores site wsite h kind name default record payload hpayload hdistinct
        (Node.check_eq_ok hcheck).2.1 hparse hsound
    | float kind =>
      rw [Read.Pass.walk] at hparse
      obtain ⟨hrest, hrestores⟩ := float_restores (h.field _) hparse
        (hsound _ List.mem_cons_self)
      simp only [Write.Pass.walk]
      exact ⟨hrest.symm, hrestores⟩
    | custom codec => cases hplain
    | _ => cases hfield
termination_by structural node => node

/-- **A tree is written back from every record that has what was read.** -/
theorem entries_restores (site wsite : Site) {place : Site} {order : ByteOrder}
    {scope wscope : Scope} (h : scope.Along order wscope) (record : Fields Value) :
    ∀ node : Node, node.Plain true → node.Distinct → node.names.Nodup →
      node.check place = .ok () → (place.placement = .element → node.isKeyed) →
      ∀ {kept bytes rest}, (pass.walk site scope none record node).parse bytes = .ok (kept, rest) →
        (node.scan order).Sound bytes →
          (node.scan order bytes).2 = rest ∧ Fields.Gains node.names record kept.2 ∧
          WritesBack bytes rest (Has node.names kept.2)
            (fun input => other.walk wsite wscope input record node) kept
  | .mk kind name default payload => by
    rintro ⟨hpayload, hplain⟩ ⟨hdistinct, hbelow⟩ hnames hcheck hplace kept bytes rest hparse hsound
    have hcheckBelow := (Node.check_eq_ok hcheck).2
    cases kind with
    | order inner children =>
      rw [Read.Pass.walk] at hparse
      obtain ⟨results, after, hchildren, rfl⟩ := arrange_of_parse hparse
      obtain ⟨hrest, hgains, hback⟩ := entriesAll_restores _ _ (h.withOrder inner) record 0 children
        hplain hbelow hnames hcheckBelow.2 (fun h => nomatch h) hchildren hsound
      simp only [Write.Pass.walk]
      exact ⟨hrest, hgains, hback.arrange⟩
    | group children =>
      rw [Read.Pass.walk] at hparse
      obtain ⟨results, after, hchildren, rfl⟩ := arrange_of_parse hparse
      obtain ⟨hrest, hgains, hback⟩ := entriesAll_restores _ _ h record 0 children hplain hbelow
        hnames hcheckBelow.2 (fun h => nomatch h) hchildren hsound
      simp only [Write.Pass.walk]
      exact ⟨hrest, hgains, hback.arrange⟩
    | int kind =>
      obtain ⟨key, rfl⟩ := Node.exists_name_of_check hcheck rfl hplace
      obtain ⟨hrest, hrestores⟩ := integer_restores site wsite h kind (some key) default record
        payload hpayload hdistinct hcheckBelow.1 hparse hsound
      exact ⟨hrest, hrestores.entry⟩
    | float kind =>
      obtain ⟨key, rfl⟩ := Node.exists_name_of_check hcheck rfl hplace
      rw [Read.Pass.walk] at hparse
      obtain ⟨hrest, hrestores⟩ := float_restores (h.field _) hparse
        (hsound _ List.mem_cons_self)
      simp only [Write.Pass.walk]
      exact ⟨hrest.symm, hrestores.entry⟩
    | _ => cases hplain
termination_by structural node => node

theorem entriesAll_restores (site wsite : Site) {place : Site} {order : ByteOrder}
    {scope wscope : Scope} (h : scope.Along order wscope) (record : Fields Value) (index : Nat) :
    ∀ nodes : List Node, Node.PlainAll true nodes → Node.DistinctAll nodes →
      (Node.namesAll nodes).Nodup → Node.checkAll place nodes = .ok () →
      (place.placement = .element → nodes.all Node.isKeyed) → ∀ {results after bytes rest},
        (pass.walkAll site scope none record nodes).parse bytes = .ok ((results, after), rest) →
        (Node.scanAll order nodes).Sound bytes →
          (Node.scanAll order nodes bytes).2 = rest ∧
          Fields.Gains (Node.namesAll nodes) record after ∧
          WritesBack bytes rest (Has (Node.namesAll nodes) after)
            (fun input => other.walkAll wsite wscope (fun _ => input) index record nodes)
            (results, after)
  | [] => by
    intro _ _ _ _ _ results after bytes rest hparse _
    rw [Read.Pass.walkAll, Plan.parse_pure] at hparse
    obtain ⟨⟨⟩, rfl⟩ := hparse
    refine ⟨rfl, Fields.gains_nil record, [], rfl, fun input _ => ?_⟩
    simp only [Write.Pass.walkAll]
    exact Script.puts_pure _
  | node :: rest => by
    rintro ⟨hnode, hothers⟩ ⟨hdistinct, hdistinctOthers⟩ hnames hcheck hplace results after bytes
      left hparse hsound
    obtain ⟨hcheck, hcheckOthers⟩ := Node.bind_unit_eq_ok.mp hcheck
    obtain ⟨hnames, hnamesOthers, hdisjoint⟩ := List.nodup_append'.mp hnames
    obtain ⟨value, middle, values, _, rfl, hfirst, hrest⟩ := walkAll_of_parse hparse
    obtain ⟨hsound, hsoundOthers⟩ := Scan.sound_then.mp hsound
    simp only [List.all_cons, Bool.and_eq_true] at hplace
    obtain ⟨rfl, hgains, used, hused, hputs⟩ := entries_restores site wsite h record node hnode
      hdistinct hnames hcheck (fun helement => (hplace helement).1) hfirst hsound
    obtain ⟨hleft, hgainsOthers, more, hmore, hputsOthers⟩ := entriesAll_restores site wsite h
      middle (index + 1) rest hothers hdistinctOthers hnamesOthers hcheckOthers
      (fun helement => (hplace helement).2) hrest hsoundOthers
    refine ⟨hleft, hgains.append hgainsOthers, used ++ more, ?_, ?_⟩
    · rw [List.append_assoc, ← hmore]
      exact hused
    · rintro _ ⟨source, rfl, hagree⟩
      -- what was read for the first node is not overwritten, so the source has it too
      exact walkAll_puts (hputs _ ⟨source, rfl, hagree.earlier hgainsOthers hdisjoint⟩)
        (hputsOthers _ ⟨source, rfl, fun name hname => hagree name (List.mem_append_right _ hname)⟩)
termination_by structural nodes => nodes

/-- **Fields that are written from positions are written back from what was read there.** -/
theorem each_restores (site wsite : Site) {place : Site} {order : ByteOrder}
    {scope wscope : Scope} (h : scope.Along order wscope) :
    ∀ (nodes : List Node) (record : Fields Value) (index : Nat), Node.PlainAll true nodes →
      Node.DistinctAll nodes → Node.checkAll place nodes = .ok () →
      nodes.all (fun node => node.kind.isField) → ∀ {results after bytes rest},
        (pass.walkAll site scope none record nodes).parse bytes = .ok ((results, after), rest) →
        (Node.scanAll order nodes).Sound bytes →
          (Node.scanAll order nodes bytes).2 = rest ∧ results.length = nodes.length ∧
          WritesBack bytes rest
            (fun inputs : Nat → Input => ∀ i node value, nodes[i]? = some node →
              results[i]? = some value →
                (inputs (index + i)).lookup? node.name = some (.ofValue value))
            (fun inputs => other.walkAll wsite wscope inputs index record nodes) (results, after)
  | [], record, index => by
    intro _ _ _ _ results after bytes rest hparse _
    rw [Read.Pass.walkAll, Plan.parse_pure] at hparse
    obtain ⟨⟨⟩, rfl⟩ := hparse
    refine ⟨rfl, rfl, [], rfl, fun inputs _ => ?_⟩
    simp only [Write.Pass.walkAll]
    exact Script.puts_pure _
  | node :: rest, record, index => by
    rintro ⟨hnode, hothers⟩ ⟨hdistinct, hdistinctOthers⟩ hcheck hfields results after bytes left
      hparse hsound
    obtain ⟨hcheck, hcheckOthers⟩ := Node.bind_unit_eq_ok.mp hcheck
    obtain ⟨value, middle, values, _, rfl, hfirst, hrest⟩ := walkAll_of_parse hparse
    obtain ⟨hsound, hsoundOthers⟩ := Scan.sound_then.mp hsound
    simp only [List.all_cons, Bool.and_eq_true] at hfields
    obtain ⟨rfl, -, used, hused, hputs⟩ := field_restores site wsite h record node hnode hdistinct
      hcheck hfields.1 hfirst hsound
    obtain ⟨hleft, hlength, more, hmore, hputsOthers⟩ := each_restores site wsite h rest middle
      (index + 1) hothers hdistinctOthers hcheckOthers hfields.2 hrest hsoundOthers
    refine ⟨hleft, congrArg (· + 1) hlength, used ++ more, ?_, fun inputs hinputs => ?_⟩
    · rw [List.append_assoc, ← hmore]
      exact hused
    · refine walkAll_puts (hputs _ (hinputs 0 node value rfl rfl))
        (hputsOthers inputs fun i other entry hother hentry => ?_)
      rw [Nat.add_right_comm, Nat.add_assoc]
      exact hinputs (i + 1) other entry hother hentry
termination_by structural nodes => nodes

end

end Rewriting

/-! ## The one file -/

theorem Node.Plain.builtIn {ordered : Bool} {node : Node} (h : node.Plain ordered) :
    node.Every Kind.BuiltIn := by
  refine Every.imp (fun kind hkind => ?_) node (Plain.retraceable node h)
  cases kind with
  | custom codec => exact hkind
  | _ => trivial

/-- A read pass of a plain layout that ended well is followed by a write pass that writes what was
read. -/
theorem Schema.writeScript_of_parse {schema : Schema} (hplace : schema.site.placement ≠ .element)
    (hplain : schema.root.Plain true) (hnames : schema.root.names.Nodup)
    (hdistinct : schema.root.Distinct) {user : Value} {target : String × String}
    {bytes rest : List UInt8} {results : List Value} {record : Fields Value}
    (hparse : (schema.contentPlan none user target).parse bytes = .ok ((results, record), rest))
    (hparts : ∀ part ∈ schema.parts bytes, part.WellFormed) {options : Options}
    {destination : String × String} (hpath : splitTarget options.path = .ok destination) :
    ∃ used, bytes = used ++ rest ∧
      (schema.writeScript (.ofValue (.record record)) options).WritesFile record used := by
  obtain ⟨inner, hinner, hmirrors⟩ : ∃ inner,
      (Scope.base destination.1).enterFile destination.2 = .ok inner ∧
        Scope.Mirrors False { Scope.base target.1 with
          trail := Path.resolve target.1 target.2
          file := some (Path.resolve target.1 target.2) } inner :=
    ⟨_, rfl, rfl, rfl, False.elim⟩
  have hsound : (Node.scanAll .big [schema.root]).Sound bytes :=
    Scan.sound_then.mpr ⟨hparts, fun part hpart => nomatch hpart⟩
  obtain ⟨-, -, used, hused, hputs⟩ := Rewriting.entriesAll_restores _
    { user := options.user, nest := false } schema.rootSite schema.rootSite
    ⟨hmirrors, fun _ horder => nomatch horder⟩ [] 0 [schema.root] ⟨hplain, trivial⟩
    ⟨hdistinct, trivial⟩ (by simpa [Node.namesAll] using hnames)
    (Node.bind_unit_eq_ok.mpr ⟨schema.checked, rfl⟩) (fun helement => absurd helement hplace)
    hparse hsound
  have hcontent := hputs (.within (.ofValue (.record record))) ⟨record, rfl, fun _ _ => rfl⟩
  rw [Schema.writeScript_single (Node.Plain.fileCount_eq_zero schema.root hplain) _ hpath]
  refine ⟨used, hused, (Script.yields_event (.trace (.singleFile _ _)) trivial).writesFile ?_⟩
  rw [← hcontent.content]
  exact Pass.inFile_writesFile rfl hinner hcontent.yields

/-- **Writing back what was read reproduces the bytes.** A record that was read from some bytes is
accepted by a write pass of the same layout, and what is written are the bytes that were consumed.
The layout is plain, though its fields need not lie below a byte order; the names of a record are
distinct; and all floats and texts that were read are well formed. -/
theorem Schema.write_read (schema : Schema) (hplace : schema.site.placement ≠ .element)
    (hplain : schema.root.Plain true) (hnames : schema.root.names.Nodup)
    (hdistinct : schema.root.Distinct) {reading writing : Options} {source : SourceOpener}
    {bytes : List UInt8} {failure : Option IoError} (hsource : source.Brings bytes failure)
    {record : Fields Value} (hresult : (schema.read none reading source).result = .ok record)
    (hparts : ∀ part ∈ schema.parts bytes, part.WellFormed)
    (hwriting : ∃ target, splitTarget writing.path = .ok target) {sinks : SinkOpener}
    (hsinks : sinks.NeverFails) :
    let written := schema.write (.ofValue (.record record)) writing sinks
    ∃ count ≤ bytes.length,
      (schema.read none reading source).streams.toList.map ReadStream.position = [count] ∧
      written.result = .ok record ∧ ∃ path, written.contents = [(path, bytes.take count)] := by
  intro written
  have hfiles := Node.Plain.fileCount_eq_zero schema.root hplain
  have hbuiltIn := hplain.builtIn
  obtain ⟨target, htarget⟩ := Schema.read_target hfiles hresult
  obtain ⟨destination, hdestination⟩ := hwriting
  obtain ⟨results, used, rest, rfl, hparse, hpositions⟩ :=
    Schema.parse_of_read hfiles hbuiltIn htarget hsource hresult
  obtain ⟨same, hsame, hwrites⟩ := Schema.writeScript_of_parse hplace hplain hnames hdistinct hparse
    hparts hdestination
  obtain rfl := List.append_cancel_right hsame
  obtain ⟨path, hfile⟩ := hwrites.file
  refine ⟨used.length, by simp, hpositions, (Schema.write_result hsinks).trans hwrites.outcome,
    path, ?_⟩
  rw [List.take_left]
  exact (Schema.contents_write hsinks hwrites.outcome).trans hfile

/-- The record of the catalogue in bytes, with one more byte behind them. -/
def catalogueBytes : List UInt8 :=
  [2, 1] ++ [0, 0, 128, 63] ++ [1, 254, 255, 0, 0, 0, 0, 0, 0, 240, 63] ++ [1, 2, 1, 255] ++
    [1, 0, 0, 0, 7, 4, 110, 0, 111, 0] ++ [33]

theorem catalogue_distinct : catalogue.root.Distinct := by
  have hid : ["id", "text"].Nodup := by decide
  exact ⟨trivial, ⟨trivial, trivial⟩, ⟨trivial, ⟨trivial, trivial⟩, trivial⟩,
    ⟨⟨fun h => (nomatch h), ⟨trivial, trivial⟩, ⟨trivial, trivial⟩, trivial⟩, trivial⟩,
    ⟨⟨fun h => (nomatch h), ⟨⟨fun h => (nomatch h), ⟨trivial, trivial⟩, trivial⟩, trivial⟩,
      trivial⟩, trivial⟩,
    ⟨⟨fun _ => hid, ⟨trivial, trivial⟩, ⟨trivial, trivial⟩, trivial⟩, trivial⟩, trivial⟩

theorem catalogue_parts : ∀ part ∈ catalogue.parts catalogueBytes, part.WellFormed := by
  have hparts : catalogue.parts catalogueBytes =
      [.float .f32 .little [0, 0, 128, 63], .float .f64 .little [0, 0, 0, 0, 0, 0, 240, 63],
        .text .utf16 [110, 0, 111, 0]] := rfl
  rw [hparts]
  intro part hpart
  simp only [List.mem_cons, List.not_mem_nil, or_false] at hpart
  rcases hpart with rfl | rfl | rfl
  · rfl
  · rfl
  · exact ⟨[110, 111], by decide, ⟨rfl, rfl, rfl⟩, rfl⟩

/-- The bytes of the double 1.0 are read as that. It counts too many units to be decoded by
evaluation. -/
theorem decode_one {kind : FloatKind} {order : ByteOrder} {bytes : List UInt8}
    (h : kind.encode order one = bytes) : kind.decode order bytes = .float one :=
  h ▸ FloatKind.decode_encode_of_represents order (represents_one kind)

theorem catalogue_read :
    (catalogue.read none taggedOptions fun _ _ => .ok (.ofBytes catalogueBytes)).result =
      .ok catalogueRecord := by
  have hparse : (catalogue.contentPlan none taggedOptions.user ("", "out")).parse catalogueBytes =
      .ok (([.null],
        [("lists", .list [.list [.int 1, .int (-1)]]),
         ("pairs", .list [.list [.int (-2),
           FloatKind.f64.decode .little [0, 0, 0, 0, 0, 0, 240, 63]]]),
         ("scale", FloatKind.f32.decode .little [0, 0, 128, 63]),
         ("tags", .list [.record [("id", .int 7), ("text", .string "no")]]),
         ("version", .int 258)]), [33]) := rfl
  have hsingle : FloatKind.f32.encode .little one = [0, 0, 128, 63] := by decide +kernel
  have hdouble : FloatKind.f64.encode .little one = [0, 0, 0, 0, 0, 0, 240, 63] := by
    decide +kernel
  rw [decode_one hsingle, decode_one hdouble] at hparse
  exact Schema.read_of_parse rfl catalogue_plain.builtIn splitTarget_out
    (gives_ofBytes catalogueBytes).brings hparse

theorem Schema.write_read_catalogue :
    let written := catalogue.write (.ofValue (.record catalogueRecord)) taggedOptions
      fun _ _ => .ok .faultless
    ∃ count ≤ catalogueBytes.length,
      (catalogue.read none taggedOptions fun _ _ =>
        .ok (.ofBytes catalogueBytes)).streams.toList.map ReadStream.position = [count] ∧
      written.result = .ok catalogueRecord ∧
      ∃ path, written.contents = [(path, catalogueBytes.take count)] :=
  Schema.write_read catalogue (fun h => nomatch h) catalogue_plain (by decide) catalogue_distinct
    (gives_ofBytes catalogueBytes).brings catalogue_read catalogue_parts ⟨_, splitTarget_out⟩
    SinkOpener.neverFails_faultless

end ByteLayout
