import ByteLayout.Proofs.Enclosed
import ByteLayout.Proofs.Paying

/-!
# The items of a read

A layout is **measured** (`Node.Measured`) if it is built of byte orders, groups, numbers, strings
and sequences, and every list of elements has a number in it, directly or in groups and byte orders.
Then every item of a sequence consumes a byte beyond those that the items within it consume, so the
number of items is bounded by the bytes that are there, whatever the counts say.

`Value.itemsFor` counts the items in the value of a field, those of inner sequences included. Not
every list is a sequence, for an item may be a list of values, one for each element; so it is the
field that tells which lists count, and in a record the field that was kept last under a name.

**Step** (`Pass.walk_pays`). The plan of a measured node pays for its items, with something left
over if there is a number in it, and no more items are in what it keeps than were completed.

**Theorem (`Schema.read_items_le`).** A read pass of a measured layout completes no more items than
it consumes bytes, and so no more than there are; nor are there more in the record it gives.
-/

namespace ByteLayout

namespace Node

/-! ## Measured layouts -/

mutual

/-- Whether a node is a number, or has one in its groups and byte orders. -/
def hasNumber : Node → Bool
  | .mk kind _ _ _ =>
    match kind with
    | .order _ children => anyNumber children
    | .group children => anyNumber children
    | .int _ => true
    | .float _ => true
    | _ => false
termination_by structural node => node

def anyNumber : List Node → Bool
  | [] => false
  | node :: rest => hasNumber node || anyNumber rest
termination_by structural nodes => nodes

end

mutual

/-- Whether a tree is built of byte orders, groups, numbers, strings and sequences, and every list
of elements has a number in it. -/
def Measured : Node → Prop
  | .mk kind _ _ payload => MeasuredPayload payload ∧ MeasuredKind kind

def MeasuredPayload : Payload → Prop
  | .none => True
  | .text text => text.IsText
  | .sequence elements => anyNumber elements = true ∧ MeasuredAll elements

def MeasuredKind : Kind → Prop
  | .order _ children => MeasuredAll children
  | .group children => MeasuredAll children
  | .int _ => True
  | .float _ => True
  | _ => False

def MeasuredAll : List Node → Prop
  | [] => True
  | node :: rest => Measured node ∧ MeasuredAll rest

end

mutual

/-- A measured tree has no files. -/
theorem Measured.fileCount_eq_zero : ∀ node : Node, node.Measured → node.fileCount = 0
  | .mk kind _ _ payload => by
    rintro ⟨hpayload, hkind⟩
    rw [fileCount, MeasuredPayload.filesInPayload_eq_zero payload hpayload,
      MeasuredKind.filesInKind_eq_zero kind hkind]
termination_by structural node => node

theorem MeasuredPayload.filesInPayload_eq_zero :
    ∀ payload : Payload, MeasuredPayload payload → filesInPayload payload = 0
  | .none => fun _ => rfl
  | .text _ => IsText.fileCount_eq_zero
  | .sequence elements => fun h => MeasuredAll.filesInAll_eq_zero elements h.2
termination_by structural payload => payload

theorem MeasuredKind.filesInKind_eq_zero :
    ∀ kind : Kind, MeasuredKind kind → filesInKind kind = 0
  | .order _ children => MeasuredAll.filesInAll_eq_zero children
  | .group children => MeasuredAll.filesInAll_eq_zero children
  | .int _ | .float _ => fun _ => rfl
  | .directory _ _ | .file _ _ | .select _ | .custom _ | .text _ => False.elim
termination_by structural kind => kind

theorem MeasuredAll.filesInAll_eq_zero :
    ∀ nodes : List Node, MeasuredAll nodes → filesInAll nodes = 0
  | [] => fun _ => rfl
  | node :: rest => fun h => by
    rw [filesInAll, Measured.fileCount_eq_zero node h.1, MeasuredAll.filesInAll_eq_zero rest h.2]
termination_by structural nodes => nodes

end

/-! ## Items in values -/

/-- The elements of a sequence. -/
def elements? : Node → Option (List Node)
  | .mk (.int _) _ _ (.sequence elements) => some elements
  | _ => none

mutual

/-- The field that a tree keeps under a name in the record, the last of them if there are more. -/
def field? : Node → String → Option Node
  | .mk kind name default payload, key =>
    match kind with
    | .order _ children => fieldOf? children key
    | .group children => fieldOf? children key
    | .int kind => if name = some key then some (.mk (.int kind) name default payload) else none
    | .float kind => if name = some key then some (.mk (.float kind) name default payload) else none
    | _ => none
termination_by structural node => node

def fieldOf? : List Node → String → Option Node
  | [], _ => none
  | node :: rest, key => (fieldOf? rest key).or (field? node key)
termination_by structural nodes => nodes

end

end Node

namespace Value

mutual

/-- The number of items in the value of a field, inner sequences included. -/
def itemsFor (field : Node) : Value → Nat
  | .list items =>
    match field.elements? with
    | some elements => itemsOfSequence elements items
    | none => 0
  | _ => 0

/-- The number of items of a sequence and in them. -/
def itemsOfSequence (elements : List Node) : List Value → Nat
  | [] => 0
  | item :: rest => 1 + itemsInItem elements item + itemsOfSequence elements rest

/-- The number of items within an item: a record, the value of a lone element, or a list with a
value for each. -/
def itemsInItem (elements : List Node) : Value → Nat
  | .record fields => itemsInRecord (Node.fieldOf? elements) fields
  | .list values =>
    match elements with
    | [element] =>
      match element.elements? with
      | some inner => itemsOfSequence inner values
      | none => 0
    | _ => itemsInEach elements values
  | _ => 0

def itemsInEach : List Node → List Value → Nat
  | element :: elements, value :: values => itemsFor element value + itemsInEach elements values
  | _, _ => 0

/-- The number of items in a record, given the field under each name. -/
def itemsInRecord (field? : String → Option Node) : List (String × Value) → Nat
  | [] => 0
  | (key, value) :: rest =>
    (match field? key with
      | some field => itemsFor field value
      | none => 0) + itemsInRecord field? rest

end

theorem itemsOfSequence_eq (elements : List Node) : ∀ items : List Value,
    itemsOfSequence elements items = (items.map fun item => 1 + itemsInItem elements item).sum
  | [] => rfl
  | item :: rest => by
    rw [itemsOfSequence, itemsOfSequence_eq elements rest, List.map_cons, List.sum_cons]

/-- Only a sequence has items. -/
theorem itemsFor_eq_zero {field : Node} (h : field.elements? = none) (value : Value) :
    itemsFor field value = 0 := by
  cases value with
  | list items => rw [itemsFor, h]
  | _ => rfl

theorem itemsFor_sequence {field : Node} {elements : List Node}
    (h : field.elements? = some elements) (items : List Value) :
    itemsFor field (.list items) = itemsOfSequence elements items := by
  rw [itemsFor, h]

/-- The items in a lone element. -/
theorem itemsInItem_lone (element : Node) {value : Value} (h : ∀ fields, value ≠ .record fields) :
    itemsInItem [element] value = itemsFor element value := by
  cases value with
  | record fields => exact absurd rfl (h fields)
  | list items => rfl
  | _ => rfl

/-! ## Items in records -/

variable {find other : String → Option Node} {record : Fields Value}

theorem itemsInRecord_congr (h : ∀ field ∈ record, find field.1 = other field.1) :
    itemsInRecord find record = itemsInRecord other record := by
  induction record with
  | nil => rfl
  | cons head rest ih =>
    rw [itemsInRecord, itemsInRecord, h head List.mem_cons_self,
      ih fun field hfield => h field (List.mem_cons_of_mem _ hfield)]

/-- The fields of a record in which `field` is the one under `key`. -/
def under (key : String) (field : Node) (find : String → Option Node) (name : String) :
    Option Node :=
  if key = name then some field else find name

/-- What lies above a key in a sorted record is not changed by what is put under it. -/
theorem itemsInRecord_under {key : String} (field : Node) (h : ∀ entry ∈ record, key < entry.1) :
    itemsInRecord (under key field find) record = itemsInRecord find record := by
  refine itemsInRecord_congr fun entry hentry => if_neg fun heq => ?_
  exact String.lt_irrefl key (heq.symm ▸ h entry hentry)

/-- **An entry that is put into a sorted record brings its items**, and may replace others. -/
theorem itemsInRecord_insert (find : String → Option Node) (h : Fields.Sorted record)
    (key : String) (field : Node) (value : Value) :
    itemsInRecord (under key field find) (Fields.insert record key value) ≤
      itemsInRecord find record + itemsFor field value := by
  have hself : under key field find key = some field := if_pos rfl
  induction record with
  | nil =>
    simp only [Fields.insert, itemsInRecord, hself]
    omega
  | cons head rest ih =>
    obtain ⟨name, old⟩ := head
    obtain ⟨hname, hrest⟩ := List.pairwise_cons.mp h
    rw [Fields.insert]
    by_cases hless : key < name
    · have habove : ∀ entry ∈ (name, old) :: rest, key < entry.1 :=
        List.forall_mem_cons.mpr
          ⟨hless, fun entry hentry => String.lt_trans hless (hname entry hentry)⟩
      rw [if_pos hless, itemsInRecord, hself, itemsInRecord_under field habove]
      dsimp only
      omega
    rw [if_neg hless]
    by_cases heq : key = name
    · subst heq
      rw [if_pos rfl, itemsInRecord, hself, itemsInRecord_under field hname, itemsInRecord]
      dsimp only
      omega
    · rw [if_neg heq, itemsInRecord, itemsInRecord, under, if_neg heq]
      have hinsert := ih hrest
      omega

end Value

/-! ## What a walk keeps -/

namespace Node

open Value

variable {node : Node} {nodes : List Node} {record middle last : Fields Value} {done more : Nat}

/-- A record to which fields were added, which `find` finds, with no more items in them than
`done`. -/
structure Grows (find : String → Option Node) (record last : Fields Value) (done : Nat) : Prop where
  sorted : Fields.Sorted record → Fields.Sorted last
  items : Fields.Sorted record → ∀ before : String → Option Node,
    itemsInRecord (fun key => (find key).or (before key)) last ≤
      itemsInRecord before record + done

theorem grows_refl (record : Fields Value) : Grows (fun _ => none) record record done :=
  ⟨id, fun _ _ => Nat.le_add_right _ _⟩

/-- Fields that are added later hide those before. -/
theorem Grows.trans {find find' : String → Option Node} (h : Grows find record middle done)
    (h' : Grows find' middle last more) :
    Grows (fun key => (find' key).or (find key)) record last (done + more) := by
  refine ⟨fun hsorted => h'.sorted (h.sorted hsorted), fun hsorted before => ?_⟩
  have hfirst := h.items hsorted before
  have hsecond := h'.items (h.sorted hsorted) fun key => (find key).or (before key)
  simp only [Option.or_assoc]
  omega

/-- The value of a node and the record after it, with no more items in either than `done`. The
value is no record. -/
structure Counted (record : Fields Value) (node : Node) (kept : Kept) (done : Nat) : Prop where
  value : kept.1.itemsFor node ≤ done
  flat : ∀ fields, kept.1 ≠ .record fields
  grows : Grows node.field? record kept.2 done

/-- The values of nodes and the record after them, with no more items in either than `done`. -/
structure CountedAll (record : Fields Value) (nodes : List Node)
    (walked : List Value × Fields Value) (done : Nat) : Prop where
  values : itemsInEach nodes walked.1 ≤ done
  flat : ∀ value ∈ walked.1, ∀ fields, value ≠ .record fields
  grows : Grows (fieldOf? nodes) record walked.2 done

theorem countedAll_nil : CountedAll record [] ([], record) 0 :=
  ⟨Nat.le_refl _, List.forall_mem_nil _, grows_refl record⟩

theorem CountedAll.cons {value : Value} {values : List Value} {rest : List Node}
    (h : Counted record node (value, middle) done)
    (hrest : CountedAll middle rest (values, last) more) :
    CountedAll record (node :: rest) (value :: values, last) (done + more) :=
  ⟨Nat.add_le_add h.value hrest.values, List.forall_mem_cons.mpr ⟨h.flat, hrest.flat⟩,
    h.grows.trans hrest.grows⟩

/-- Whether a node is kept under its name, if it has one. -/
def IsKept (node : Node) (name : Option String) : Prop :=
  ∀ key, node.field? key = if name = some key then some node else none

theorem counted_keep {name : Option String} (hkept : node.IsKept name) {value : Value}
    (hvalue : value.itemsFor node ≤ done) (hflat : ∀ fields, value ≠ .record fields) :
    Counted record node (keep name record value) done := by
  cases name with
  | none =>
    have hfield : node.field? = fun _ => none := funext fun key => (hkept key).trans (if_neg nofun)
    refine ⟨hvalue, hflat, ?_⟩
    rw [hfield]
    exact grows_refl record
  | some name =>
    refine ⟨hvalue, hflat, fun hsorted => Fields.sorted_insert hsorted name value,
      fun hsorted before => ?_⟩
    have hfind : (fun key => (node.field? key).or (before key)) = under name node before := by
      funext key
      rw [hkept key, under]
      by_cases heq : name = key
      · rw [if_pos heq, if_pos (congrArg some heq)]
        rfl
      · rw [if_neg heq, if_neg fun h => heq (Option.some.inj h)]
        rfl
    have hinsert := itemsInRecord_insert before hsorted name node value
    rw [hfind]
    show itemsInRecord _ (Fields.insert record name value) ≤ _
    omega

/-- **In an item there are no more items than in its elements.** -/
theorem CountedAll.item {walked : List Value × Fields Value} {elements : List Node}
    (h : CountedAll [] elements walked done) :
    itemsInItem elements (itemValue elements walked.2 walked.1) ≤ done := by
  obtain ⟨values, fields⟩ := walked
  obtain ⟨hvalues, hflat, hgrows⟩ := h
  unfold itemValue
  split
  · have hitems := hgrows.items Fields.sorted_nil fun _ => none
    simp only [Option.or_none] at hitems
    exact Nat.le_trans hitems (Nat.le_of_eq (Nat.zero_add done))
  · cases elements with
    | nil => exact hvalues
    | cons element rest =>
      cases rest with
      | nil =>
        cases values with
        | nil => exact Nat.zero_le _
        | cons value others =>
          show itemsInItem [element] value ≤ done
          rw [itemsInItem_lone element (hflat value List.mem_cons_self)]
          exact Nat.le_trans (Nat.le_add_right _ _) hvalues
      | cons second rest => exact hvalues

end Node

theorem IntKind.width_pos (kind : IntKind) : 0 < kind.width := by cases kind <;> decide

theorem FloatKind.width_pos (kind : FloatKind) : 0 < kind.width := by cases kind <;> decide

theorem FloatKind.decode_flat (kind : FloatKind) (order : ByteOrder) (bytes : List UInt8)
    (fields : Fields Value) : kind.decode order bytes ≠ .record fields := by
  unfold decode ofBits
  split <;> exact nofun

namespace Read

open Node hiding default
open Plan

namespace Pass

variable {pass : Pass} {before : Nat} {node : Node} {name : Option String} {scope : Scope}
variable {transform : Option Transform} {record : Fields Value}

/-! ## Fields -/

theorem integer_pays (kind : IntKind) (scope : Scope) :
    Plan.Pays before (integer kind scope) (before + 1) Idle :=
  (idle_ofExcept _).idle fun _ => (pays_field _ _).idle fun _ =>
    (pays_fetch kind.width).idle fun _ =>
      (idle_pure _).mono (Nat.add_le_add_left kind.width_pos before) fun _ _ h => h

theorem transformed_pays (value : Value) :
    Plan.Pays before (pass.transformed transform scope record value) before
      fun later done => done = 0 ∧ (transform = none → later = value) := by
  unfold transformed
  split
  · exact pays_pure ⟨rfl, fun _ => rfl⟩
  · next f hf =>
    refine (pays_called _ _).mono (Nat.le_refl _) fun later done hdone => ⟨hdone, ?_⟩
    rintro rfl
    cases hf

/-- A value that is no sequence, of a field that is kept under its name. -/
theorem settle_pays (hkept : node.IsKept name) (helements : node.elements? = none) {value : Value}
    (hflat : ∀ fields, value ≠ .record fields) :
    Plan.Pays before (pass.settle name scope transform record value) before
      fun kept done => transform = none → Counted record node kept done := by
  have hzero : value.itemsFor node ≤ 0 := Nat.le_of_eq (Value.itemsFor_eq_zero helements value)
  cases name with
  | none => exact pays_pure fun _ => counted_keep hkept hzero hflat
  | some name =>
    refine (transformed_pays value).bind fun later first hlater => pays_pure fun hnone => ?_
    obtain ⟨rfl, hsame⟩ := hlater
    rw [hsame (by rw [hnone]; rfl)]
    exact counted_keep hkept hzero hflat

theorem int_pays (kind : IntKind) (hkept : node.IsKept name) (helements : node.elements? = none) :
    Plan.Pays before (pass.int kind name scope transform record) (before + 1)
      fun kept done => transform = none → Counted record node kept done :=
  (integer_pays kind scope).idle fun _ => settle_pays hkept helements nofun

theorem float_pays (kind : FloatKind) (hkept : node.IsKept name)
    (helements : node.elements? = none) :
    Plan.Pays before (pass.float kind name scope transform record) (before + 1)
      fun kept done => transform = none → Counted record node kept done :=
  (idle_ofExcept _).idle fun order => (pays_field _ _).idle fun _ =>
    (pays_fetch kind.width).idle fun bytes =>
      (settle_pays hkept helements (kind.decode_flat order bytes)).mono
        (Nat.add_le_add_left kind.width_pos before) fun _ _ h => h

theorem string_pays (kind : IntKind) (text : Node) (hkept : node.IsKept name)
    (helements : node.elements? = none) :
    Plan.Pays before (pass.string kind text name scope transform record) (before + 1)
      fun kept done => transform = none → Counted record node kept done := by
  refine (integer_pays kind scope).idle fun n => (idle_ofExcept _).idle fun length => ?_
  split
  · next encoding _ =>
    refine (pays_read length).idle fun bytes => ?_
    have hflat : ∀ fields, Value.string (encoding.decode bytes) ≠ .record fields := nofun
    exact (settle_pays hkept helements hflat).mono (Nat.le_add_right _ _) fun _ _ h => h
  · refine pays_ofExcept ?_
    intro kept hkept
    cases hkept

/-- **A sequence pays for its items**, each of which consumes a byte beyond those of the items in
it. -/
theorem sequence_pays (kind : IntKind) {elements : List Node} (hkept : node.IsKept name)
    (helements : node.elements? = some elements)
    {content : Scope → Option Transform → Plan (List Value × Fields Value)}
    (hcontent : ∀ scope transform before, Plan.Pays before (content scope transform) (before + 1)
      fun walked done => transform = none → CountedAll [] elements walked done) :
    Plan.Pays before (pass.sequence kind elements name scope transform record content) (before + 1)
      fun kept done => transform = none → Counted record node kept done := by
  unfold sequence
  dsimp only
  have hnone : transform = none →
      (name.bind fun name => transform.bind (·.field? name)) = none := by
    rintro rfl
    cases name <;> rfl
  generalize (name.bind fun name => transform.bind (·.field? name)) = ofName at hnone
  refine (integer_pays kind scope).idle fun n => (idle_ofExcept _).idle fun count => ?_
  refine (pays_collect (transform = none) (fun item => 1 + Value.itemsInItem elements item)
    (fun index => ?_) count 0 []).bind fun items done hitems => pays_pure fun htransform => ?_
  · refine (hcontent _ _ (before + 1)).bind fun walked inner hinner => ?_
    refine (transformed_pays _).bind fun value idle hvalue => ?_
    refine (pays_itemDone scope.trail index).bind fun _ one hone => pays_pure fun htransform => ?_
    have hofName := hnone htransform
    have hcounted := hinner (by rw [hofName]; rfl)
    have hsame := hvalue.2 hofName
    rw [hsame]
    have hitem := hcounted.item
    obtain ⟨rfl, -⟩ := hvalue
    obtain rfl : one = 1 := hone
    omega
  · refine counted_keep hkept ?_ nofun
    rw [Value.itemsFor_sequence helements, Value.itemsOfSequence_eq]
    have hsum := hitems htransform
    rw [List.map_nil, List.sum_nil] at hsum
    omega

theorem arrange_pays {walked : Plan (List Value × Fields Value)} {nodes : List Node} {after : Nat}
    (hfield : node.field? = fieldOf? nodes)
    (h : Plan.Pays before walked after fun walked done =>
      transform = none → CountedAll record nodes walked done) :
    Plan.Pays before (arrange walked) after
      fun kept done => transform = none → Counted record node kept done :=
  h.bind fun _ _ hcounted => pays_pure fun htransform =>
    ⟨Nat.zero_le _, nofun, hfield ▸ (hcounted htransform).grows⟩

/-! ## Trees -/

mutual

/-- **The plan of a measured node pays for its items.** -/
theorem walk_pays (pass : Pass) (site : Site) (scope : Scope) (transform : Option Transform)
    (record : Fields Value) : ∀ (node : Node), node.Measured → ∀ before : Nat,
      Plan.Pays before (pass.walk site scope transform record node)
        (before + node.hasNumber.toNat)
        fun kept done => transform = none → Counted record node kept done
  | .mk kind name default payload => by
    rintro ⟨hpayload, hkind⟩ before
    cases kind with
    | order order children =>
      rw [walk]
      exact arrange_pays rfl (walkAll_pays pass _ _ transform record children hkind before)
    | group children =>
      rw [walk]
      exact arrange_pays rfl (walkAll_pays pass _ _ transform record children hkind before)
    | int kind =>
      cases payload with
      | none =>
        rw [walk]
        exact int_pays kind (fun _ => rfl) rfl
      | text text =>
        rw [walk]
        exact string_pays kind text (fun _ => rfl) rfl
      | sequence elements =>
        rw [walk]
        obtain ⟨hnumber, helements⟩ := hpayload
        refine sequence_pays kind (fun _ => rfl) rfl fun scope inner before => ?_
        have hone : before + 1 = before + (anyNumber elements).toNat := by rw [hnumber]; rfl
        rw [hone]
        exact walkAll_pays pass _ scope inner [] elements helements before
    | float kind =>
      rw [walk]
      exact float_pays kind (fun _ => rfl) (by cases payload <;> rfl)
    | _ => exact absurd hkind id
termination_by structural node => node

theorem walkAll_pays (pass : Pass) (site : Site) (scope : Scope) (transform : Option Transform)
    (record : Fields Value) : ∀ (nodes : List Node), MeasuredAll nodes → ∀ before : Nat,
      Plan.Pays before (pass.walkAll site scope transform record nodes)
        (before + (anyNumber nodes).toNat)
        fun walked done => transform = none → CountedAll record nodes walked done
  | [] => fun _ before => by
    rw [walkAll]
    exact pays_pure fun _ => countedAll_nil
  | node :: rest => by
    rintro ⟨hnode, hrest⟩ before
    rw [walkAll]
    have hsum : before + (anyNumber (node :: rest)).toNat ≤
        before + node.hasNumber.toNat + (anyNumber rest).toNat := by
      rw [anyNumber]
      cases node.hasNumber <;> cases anyNumber rest <;> simp
    refine (walk_pays pass site scope transform record node hnode before).bind
      fun kept done hkept => ?_
    refine ((walkAll_pays pass site scope transform kept.2 rest hrest _).bind
      fun walked more hwalked => pays_pure fun htransform => ?_).mono hsum fun _ _ h => h
    exact .cons (hkept htransform) (hwalked htransform)
termination_by structural nodes => nodes

end

end Pass

/-! ## Whole passes -/

/-- The numbers of bytes consumed of the files that are done with. -/
def Stage.positions (stage : Stage) : List Nat := stage.streams.toList.map ReadStream.position

namespace Stage

variable {stage : Stage} {α β : Type}

theorem positions_closeStream {stream : ReadStream} (h : stage.current = some stream)
    (path : String) :
    (stage.closeStream path).abandon.positions = stage.positions ++ [stream.consumed] ∧
      (stage.closeStream path).abandon.journal.itemsDone = stage.journal.itemsDone := by
  obtain ⟨journal, streams, current⟩ := stage
  obtain rfl : current = some stream := h
  refine ⟨?_, ?_⟩
  · show (streams.push stream.close.stream).toList.map ReadStream.position = _
    rw [Array.toList_push, List.map_append]
    rfl
  · show Journal.itemsDone (Array.push journal _ ++ stream.close.events) = journal.itemsDone
    unfold Journal.itemsDone ReadStream.close
    rw [Journal.view_append, Journal.view_push]
    simp [Event.item?]

theorem positions_abandon {stream : ReadStream} (h : stage.current = some stream) :
    stage.abandon.positions = stage.positions ++ [stream.consumed] ∧
      stage.abandon.journal.itemsDone = stage.journal.itemsDone := by
  obtain ⟨journal, streams, current⟩ := stage
  obtain rfl : current = some stream := h
  refine ⟨?_, rfl⟩
  show (streams.push stream.abort).toList.map ReadStream.position = _
  rw [Array.toList_push, List.map_append]
  rfl

/-- Puts the open file away after its content was read. -/
def closed (path : String) (f : α → β) : Except Error α × Stage → Except Error β × Stage
  | (.error error, later) => (.error error, later)
  | (.ok a, later) => (.ok (f a), later.closeStream path)

/-- A whole file is opened, read and put away. -/
theorem follow_whole (setup : Setup) (stage : Stage) (path : String) (content : Plan α)
    (f : α → β) :
    (stage.follow setup do
      .openFile path
      let a ← content
      .closeFile path
      return f a) =
      match setup.opener stage.openedPaths path with
      | .error error => (.error error, stage)
      | .ok behaviour =>
        closed path f ((stage.opened setup path behaviour).follow setup content) := by
  simp only [follow_bind, follow_openFile]
  cases setup.opener stage.openedPaths path with
  | error error => rfl
  | ok behaviour =>
    dsimp only
    rcases (stage.opened setup path behaviour).follow setup content with ⟨_ | _, later⟩ <;> rfl

/-- What a plan that pays for its items leaves behind when it reads a whole file of at most `size`
bytes: no more items than bytes that were consumed. -/
theorem follow_paid (setup : Setup) (path : String) {content : Plan α} {after : Nat}
    {Q : α → Nat → Prop} (hcontent : content.Pays 0 after Q) (hcurrent : stage.current = none)
    {size : Nat}
    (hsize : ∀ behaviour, setup.opener stage.openedPaths path = .ok behaviour →
      behaviour.data.length ≤ size) (f : α → β) :
    let answer := stage.follow setup do
      .openFile path
      let a ← content
      .closeFile path
      return f a
    ∃ consumed done, answer.2.abandon.positions = stage.positions ++ consumed ∧
      answer.2.abandon.journal.itemsDone = stage.journal.itemsDone + done ∧
      done ≤ consumed.sum ∧ consumed.sum ≤ size ∧
      ∀ b, answer.1 = .ok b → ∃ a, f a = b ∧ Q a done := by
  intro answer
  have hanswer : answer = _ := follow_whole setup stage path content f
  clear_value answer
  rw [hanswer]
  cases hopen : setup.opener stage.openedPaths path with
  | error error =>
    have habandon : stage.abandon = stage := by
      unfold abandon
      rw [hcurrent]
    dsimp only
    rw [habandon]
    exact ⟨[], 0, (List.append_nil _).symm, rfl, Nat.le_refl _, Nat.zero_le _, nofun⟩
  | ok behaviour =>
    obtain ⟨stream, used, done, hlater, hconsumes, hstreams, hdone, hbalanced⟩ :=
      hcontent setup (stage.opened setup path behaviour) _ rfl
    have hused : used.length ≤ size := by
      have hdata : behaviour.data = used ++ stream.unread := hconsumes.unread
      have hlength := hsize behaviour hopen
      rw [hdata, List.length_append] at hlength
      omega
    have hconsumed : stream.consumed = used.length :=
      hconsumes.consumed.trans (Nat.zero_add _)
    have hopened : (stage.opened setup path behaviour).journal.itemsDone =
        stage.journal.itemsDone := by
      show Journal.itemsDone
        (stage.journal ++ [Event.opened path, .trace (.readReady path setup.chunk)]) = _
      rw [Journal.itemsDone_append]
      rfl
    have hpositions : (stage.opened setup path behaviour).positions = stage.positions := rfl
    rw [hopened] at hdone
    dsimp only
    rcases hfollow : (stage.opened setup path behaviour).follow setup content with
      ⟨error | a, later⟩
    · rw [hfollow] at hlater hstreams hdone hbalanced
      obtain ⟨hlast, hitems⟩ := positions_abandon hlater
      refine ⟨[used.length], done, ?_, hitems.trans hdone, ?_, hused, nofun⟩
      · rw [← hconsumed, ← hpositions]
        exact hlast.trans (congrArg (·.toList.map ReadStream.position ++ _) hstreams)
      · exact hbalanced
    · rw [hfollow] at hlater hstreams hdone hbalanced
      obtain ⟨hlast, hitems⟩ := positions_closeStream hlater path
      obtain ⟨hcredit, hQ⟩ := hbalanced
      refine ⟨[used.length], done, ?_, hitems.trans hdone, ?_, hused, ?_⟩
      · rw [← hconsumed, ← hpositions]
        exact hlast.trans (congrArg (·.toList.map ReadStream.position ++ _) hstreams)
      · rw [List.sum_singleton]
        omega
      · intro b hb
        exact ⟨a, Except.ok.inj hb, hQ⟩

end Stage

end Read

open Read

/-- Without a file name there is nothing to open. -/
theorem Schema.read_untargeted {schema : Schema} (hfiles : schema.fileCount = 0)
    (transform : Option Transform) {options : Options} {error : Error}
    (htarget : splitTarget options.path = .error error) (opener : SourceOpener) :
    schema.read transform options opener =
      ⟨.error error, (Stage.empty.log (options.warnings .read)).journal, #[]⟩ := by
  have hplan : schema.readPlan transform options = .fail error := by
    unfold readPlan
    rw [if_pos hfiles, htarget]
    rfl
  unfold read
  rw [hplan]
  rfl

theorem Options.itemsDone_warnings (options : Options) :
    (Stage.empty.log (options.warnings .read)).journal.itemsDone = 0 := by
  show Journal.itemsDone (#[] ++ options.warnings .read) = 0
  rw [Journal.itemsDone_append, options.filterMap_warnings Event.attentive_item?]
  rfl

/-- **A read pass of one file pays for its items** if the plan of its content does. -/
theorem Schema.read_paid {schema : Schema} (hfiles : schema.fileCount = 0)
    (transform : Option Transform) (options : Options) {opener : SourceOpener} {size : Nat}
    (hsize : ∀ before path behaviour, opener before path = .ok behaviour →
      behaviour.data.length ≤ size)
    {after : Nat} {Q : List Value × Fields Value → Nat → Prop}
    (hcontent : ∀ target, Plan.Pays 0 (schema.contentPlan transform options.user target) after Q) :
    let report := schema.read transform options opener
    let consumed := (report.streams.toList.map ReadStream.position).sum
    report.journal.itemsDone ≤ consumed ∧ consumed ≤ size ∧
      ∀ record, report.result = .ok record →
        ∃ results, Q (results, record) report.journal.itemsDone := by
  intro report consumed
  cases htarget : splitTarget options.path with
  | error error =>
    have hreport : report = _ := Schema.read_untargeted hfiles transform htarget opener
    have hconsumed : consumed = 0 := by
      show (report.streams.toList.map ReadStream.position).sum = 0
      rw [hreport]
      rfl
    rw [hconsumed, hreport]
    exact ⟨Nat.le_of_eq options.itemsDone_warnings, Nat.zero_le _, fun _ => nofun⟩
  | ok target =>
    let setup : Setup := { opener, chunk := options.clamped.bufferSize, debug := options.debug }
    let path := Path.resolve target.1 target.2
    let before : Stage := Stage.log (.log (.log .empty (options.warnings .read))
      [.trace (.singleFile .read options.path)]) [.trace (.opening path)]
    have hbefore : before.journal.itemsDone = 0 := by
      show Journal.itemsDone (_ ++ [_] ++ [_]) = 0
      rw [Journal.itemsDone_append, Journal.itemsDone_append, options.itemsDone_warnings]
      rfl
    have hpaid := Stage.follow_paid setup path (hcontent target)
      (show before.current = none from rfl) (hsize _ path) Prod.snd
    generalize hanswer : before.follow setup _ = answer at hpaid
    have hreport : report = ⟨answer.1, answer.2.abandon.journal, answer.2.abandon.streams⟩ := by
      subst hanswer
      show (schema.readPlan transform options).answer setup (options.warnings .read) = _
      rw [readPlan_single hfiles transform htarget]
      rfl
    obtain ⟨positions, done, hpositions, hitems, hdone, hsum, hok⟩ := hpaid
    have hconsumed : consumed = positions.sum := by
      show (report.streams.toList.map ReadStream.position).sum = _
      rw [hreport]
      exact congrArg List.sum hpositions
    have hjournal : report.journal.itemsDone = done := by
      rw [hreport]
      exact hitems.trans (by rw [hbefore, Nat.zero_add])
    rw [hconsumed, hjournal]
    refine ⟨hdone, hsum, fun record hrecord => ?_⟩
    rw [hreport] at hrecord
    obtain ⟨walked, rfl, hwalked⟩ := hok record hrecord
    exact ⟨walked.1, hwalked⟩

/-- **A read pass of a measured layout completes no more items than it consumes bytes**, whatever
the source declares, and the record that it gives without a transform has no more items in it. -/
theorem Schema.read_items_le (schema : Schema) (hmeasured : schema.root.Measured)
    (transform : Option Transform) (options : Options) {opener : SourceOpener} {size : Nat}
    (hsize : ∀ before path behaviour, opener before path = .ok behaviour →
      behaviour.data.length ≤ size) :
    let report := schema.read transform options opener
    let consumed := (report.streams.toList.map ReadStream.position).sum
    report.journal.itemsDone ≤ consumed ∧ consumed ≤ size ∧
      (transform = none → ∀ record, report.result = .ok record →
        Value.itemsInRecord schema.root.field? record ≤ consumed) := by
  intro report consumed
  have hfiles : schema.fileCount = 0 := Node.Measured.fileCount_eq_zero schema.root hmeasured
  obtain ⟨hdone, hsum, hok⟩ := Schema.read_paid hfiles transform options hsize fun target =>
    Pass.walkAll_pays _ _ _ transform [] [schema.root] ⟨hmeasured, trivial⟩ 0
  refine ⟨hdone, hsum, fun htransform record hrecord => ?_⟩
  obtain ⟨results, hcounted⟩ := hok record hrecord
  have hgrows := (hcounted htransform).grows.items Fields.sorted_nil fun _ => none
  have hfind : (fun key => (Node.fieldOf? [schema.root] key).or none) = schema.root.field? := by
    funext key
    simp [Node.fieldOf?]
  rw [hfind] at hgrows
  exact Nat.le_trans hgrows ((Nat.zero_add _).symm ▸ hdone)

/-- A table: rows of cells, with a count before each. -/
def table : Schema :=
  ⟨.ofKind (.order .big [((Node.ofKind (.int .u8)).named "rows").withSequence
    [((Node.ofKind (.int .u64)).named "cells").withSequence [byteField "cell"]]]), .root, rfl⟩

theorem table_measured : table.root.Measured :=
  ⟨trivial, ⟨⟨rfl, ⟨⟨rfl, ⟨trivial, trivial⟩, trivial⟩, trivial⟩, trivial⟩, trivial⟩, trivial⟩

/-- Two rows, of which the first declares as many cells as it can. -/
def hostileBytes : List UInt8 := [2, 255, 255, 255, 255, 255, 255, 255, 255, 1, 2, 3]

def hostileSource : SourceOpener := fun _ _ => .ok (.ofBytes hostileBytes)

theorem Schema.read_items_le_table :
    (∀ before path behaviour, hostileSource before path = .ok behaviour →
      behaviour.data.length ≤ 12) ∧
      let report := table.read none taggedOptions hostileSource
      let consumed := (report.streams.toList.map ReadStream.position).sum
      report.journal.itemsDone ≤ consumed ∧ consumed ≤ 12 ∧
        ∀ record, report.result = .ok record →
          Value.itemsInRecord table.root.field? record ≤ consumed := by
  have hsize : ∀ before path behaviour, hostileSource before path = .ok behaviour →
      behaviour.data.length ≤ 12 := by
    intro _ _ behaviour hbehaviour
    rw [← Except.ok.inj hbehaviour]
    exact Nat.le_refl 12
  obtain ⟨hdone, hconsumed, hrecord⟩ :=
    Schema.read_items_le table table_measured none taggedOptions hsize
  exact ⟨hsize, hdone, hconsumed, hrecord rfl⟩

end ByteLayout
