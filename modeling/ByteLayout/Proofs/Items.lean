import ByteLayout.Proofs.FileRecords
import ByteLayout.Proofs.Parsing
import ByteLayout.Proofs.Fields
import ByteLayout.Proofs.Rewriting
import ByteLayout.Proofs.Survey

/-!
# What an item keeps of its fields

An item is a record if its elements are all named, or are nodes that arrange others, and some field
was named; otherwise it is the list of what stands at the places of its elements. The choice looks
at the elements alone, before any field is read. What the fields turn out to be then has no place in
some items: a `select` may choose an unnamed field beside named ones, and a node that arranges
fields may stand in a list, where its own value is nothing. An item *drops* these fields, and holds
the others.

**Theorem (`Found.Fill`, `ItemRead.Fills.faithful`).** A node fills its place with the one field
that it is, or with nothing and named fields. An item that is filled this way, and whose fields have
distinct names, holds every field that it does not drop.

**Theorem (`Read.Pass.survey_tells`).** A survey of a node does what the pass does, and its items
are faithful.

**Theorem (`Schema.read_items`).** A read that ends well loses of its items the dropped fields, and
no others.
-/

namespace ByteLayout

/-- The entries that fields leave in a record. -/
def Found.entries (fields : List Found) : List (String × Value) :=
  fields.filterMap fun field => field.name.map fun name => (name, field.value)

namespace ItemRead

/-- Whether no two fields of an item have the same name. -/
def Distinct (item : ItemRead) : Prop :=
  ((Found.entries item.found.flatten).map Prod.fst).Nodup

/-- Whether an item is a record: no element is an unnamed field, and something was named. -/
def isRecord (item : ItemRead) : Bool :=
  item.elements.all Node.isKeyed && !(Found.entries item.found.flatten).isEmpty

/-- Whether an item has no place for a field: for an unnamed one in a record, or for one that is not
bare in a list of values. -/
def drops (item : ItemRead) (field : Found) : Bool :=
  if item.isRecord then field.name.isNone else !field.bare

/-- The value that a positional item has for an element: the only element is the whole item. -/
def valueAt (item : ItemRead) (index : Nat) : Option Value :=
  match item.elements, item.value with
  | [_], value => some value
  | _, .list values => values[index]?
  | _, _ => none

/-- Whether a field of an element occurs in an item, under its name or in the place of the
element. -/
def Holds (item : ItemRead) (index : Nat) (field : Found) : Prop :=
  (∃ name record, field.name = some name ∧ item.value = .record record ∧
    Fields.get? record name = some field.value) ∨
  item.valueAt index = some field.value

/-- What an item has in place of a field that is lost: a record of the named fields only, or nothing
where the element stands. -/
def Lacks (item : ItemRead) (index : Nat) (field : Found) : Prop :=
  (field.name = none ∧ item.value = .record (Fields.ofList (Found.entries item.found.flatten))) ∨
  (field.bare = false ∧ item.valueAt index = some .null)

/-- Whether an item holds the fields that it does not drop, and lacks the others. -/
def Faithful (item : ItemRead) : Prop :=
  ∀ index fields, item.found[index]? = some fields → ∀ field ∈ fields,
    (item.drops field = false → item.Holds index field) ∧
      (item.drops field = true → item.Lacks index field)

end ItemRead

/-- In an accepted tree a field has a name, unless it is an element. -/
theorem Node.Admitted.isSome_name {placement : Placement} {node : Node}
    (h : node.Admitted placement) (hfield : node.kind.isField = true)
    (hplacement : placement ≠ .element) : node.name.isSome := by
  obtain ⟨kind, name, default, payload⟩ := node
  obtain ⟨site, rfl, hcheck⟩ := h
  obtain ⟨key, rfl⟩ := exists_name_of_check hcheck hfield fun helement => absurd helement hplacement
  rfl

/-! ## What is found -/

/-- What is found for a node of some placement: its value is that of its one field, or it has none
and arranges fields that have names. -/
structure Found.Fill (placement : Placement) (value : Value) (fields : List Found) : Prop where
  named : placement ≠ .element → ∀ field ∈ fields, field.name.isSome
  alone : (∃ field, fields = [field] ∧ field.bare = true ∧ value = field.value) ∨
    ((∀ field ∈ fields, field.bare = false ∧ field.name.isSome) ∧ value = .null)

namespace Found

variable {placement : Placement} {value : Value} {fields : List Found}

/-- A field fills the place of its node. -/
theorem fill_field (name : Option String) (value : Value)
    (hname : placement ≠ .element → name.isSome) : Fill placement value [⟨name, value, true⟩] := by
  refine ⟨fun hplacement field hfield => ?_, .inl ⟨_, rfl, rfl, rfl⟩⟩
  rw [List.mem_singleton.mp hfield]
  exact hname hplacement

/-- Named fields below a node that arranges them. -/
theorem fill_arranged (h : ∀ field ∈ fields, field.name.isSome) :
    Fill placement .null (fields.map Found.within) := by
  have hnamed : ∀ field ∈ fields.map Found.within, field.bare = false ∧ field.name.isSome := by
    intro field hfield
    obtain ⟨inner, hinner, rfl⟩ := List.mem_map.mp hfield
    exact ⟨rfl, h inner hinner⟩
  exact ⟨fun _ field hfield => (hnamed field hfield).2, .inr ⟨hnamed, rfl⟩⟩

theorem named_of_fill {values : List Value} {found : List (List Found)}
    (h : List.Forall₂ (Fill placement) values found) (hplacement : placement ≠ .element) :
    ∀ fields ∈ found, ∀ field ∈ fields, field.name.isSome := by
  induction h with
  | nil => exact List.forall_mem_nil _
  | cons hfill _ ih => exact List.forall_mem_cons.mpr ⟨hfill.named hplacement, ih⟩

/-- To lie below a node that arranges changes no entry. -/
theorem entries_within (fields : List Found) :
    entries (fields.map Found.within) = entries fields := by
  unfold entries
  rw [List.filterMap_map]
  rfl

theorem entries_append (fields others : List Found) :
    entries (fields ++ others) = entries fields ++ entries others :=
  List.filterMap_append

theorem mem_entries {field : Found} {name : String} (h : field ∈ fields)
    (hname : field.name = some name) : (name, field.value) ∈ entries fields :=
  List.mem_filterMap.mpr ⟨field, h, by rw [hname]; rfl⟩

end Found

/-- A record with entries put in. -/
def Fields.insertAll (record : Fields Value) (entries : List (String × Value)) : Fields Value :=
  entries.foldl (fun fields entry => insert fields entry.1 entry.2) record

namespace Fields

theorem isEmpty_insert (fields : Fields Value) (name : String) (entry : Value) :
    (insert fields name entry).isEmpty = false := by
  cases fields with
  | nil => rfl
  | cons head rest =>
    unfold insert
    split
    · rfl
    · split <;> rfl

theorem isEmpty_ofList (entries : List (String × Value)) :
    (ofList entries).isEmpty = entries.isEmpty := by
  rcases List.eq_nil_or_concat entries with rfl | ⟨before, entry, rfl⟩
  · rfl
  · unfold ofList
    rw [List.concat_eq_append, List.foldl_append, List.foldl_cons, List.foldl_nil, isEmpty_insert]
    exact (List.isEmpty_eq_false_iff.mpr (List.append_ne_nil_of_right_ne_nil _ (by simp))).symm

end Fields

/-! ## Items -/

namespace ItemRead

/-- What is found for the elements of an item, given the values and the record that they leave. -/
structure Fills (item : ItemRead) (results : List Value) (after : Fields Value) : Prop where
  length : results.length = item.elements.length
  fills : List.Forall₂ (Found.Fill .element) results item.found
  record : after = Fields.ofList (Found.entries item.found.flatten)
  value : item.value = Node.itemValue item.elements after results

variable {item : ItemRead} {results : List Value} {after : Fields Value}

/-- An item is a record if its value is chosen to be one. -/
theorem Fills.isRecord_eq (h : item.Fills results after) :
    item.isRecord = (item.elements.all Node.isKeyed && !after.isEmpty) := by
  rw [h.record, Fields.isEmpty_ofList]
  rfl

theorem Fills.value_of_isRecord (h : item.Fills results after) (hrecord : item.isRecord = true) :
    item.value = .record after := by
  rw [h.value]
  unfold Node.itemValue
  rw [← h.isRecord_eq, if_pos hrecord]

/-- An item that is no record has the values of its elements in their places. -/
theorem Fills.valueAt_eq (h : item.Fills results after) (hrecord : item.isRecord = false)
    {index : Nat} (hindex : index < results.length) :
    item.valueAt index = some results[index] := by
  obtain ⟨elements, found, value⟩ := item
  have hlength : results.length = elements.length := h.length
  have hvalue := h.value
  unfold Node.itemValue at hvalue
  rw [← h.isRecord_eq, hrecord, if_neg Bool.false_ne_true] at hvalue
  unfold valueAt
  match elements, results with
  | [_], [result] =>
    obtain rfl := Nat.lt_one_iff.mp hindex
    exact congrArg some hvalue
  | [_], [] => cases hlength
  | [_], _ :: _ :: _ => cases hlength
  | [], results =>
    obtain rfl : value = .list results := hvalue
    exact List.getElem?_eq_getElem hindex
  | _ :: _ :: _, results =>
    obtain rfl : value = .list results := hvalue
    exact List.getElem?_eq_getElem hindex

/-- In an item whose fields have distinct names, each is found under its name. -/
theorem Fills.get?_record (h : item.Fills results after) (hdistinct : item.Distinct)
    {fields : List Found} (hfields : fields ∈ item.found) {field : Found} (hfield : field ∈ fields)
    {name : String} (hname : field.name = some name) :
    Fields.get? after name = some field.value := by
  have hmem : field ∈ item.found.flatten := List.mem_flatten.mpr ⟨fields, hfields, hfield⟩
  rw [h.record]
  exact Fields.get?_ofList_of_mem hdistinct (Found.mem_entries hmem hname)

/-- **An item holds what it does not drop.** -/
theorem Fills.faithful (h : item.Fills results after) (hdistinct : item.Distinct) :
    item.Faithful := by
  intro index fields hfields field hfield
  obtain ⟨hlength, hfill⟩ := List.forall₂_iff_get.mp h.fills
  obtain ⟨hindex, rfl⟩ := List.getElem?_eq_some_iff.mp hfields
  have hindex' : index < results.length := hlength ▸ hindex
  have hmem : item.found[index] ∈ item.found := List.getElem_mem hindex
  obtain ⟨-, hplace⟩ := hfill index hindex' hindex
  unfold drops
  cases hrecord : item.isRecord with
  | true =>
    have hitem := h.value_of_isRecord hrecord
    rw [if_pos rfl]
    cases hname : field.name with
    | none =>
      rw [h.record] at hitem
      refine ⟨fun hkept => ?_, fun _ => .inl ⟨hname, hitem⟩⟩
      cases hkept
    | some name =>
      have hget := h.get?_record hdistinct hmem hfield hname
      refine ⟨fun _ => .inl ⟨name, after, hname, hitem, hget⟩, fun hdropped => ?_⟩
      cases hdropped
  | false =>
    have hitem := h.valueAt_eq hrecord hindex'
    rw [if_neg Bool.false_ne_true]
    rcases hplace with ⟨only, honly, hbare, hvalue⟩ | ⟨hnone, hvalue⟩
    · have hsame : item.found[index] = [only] := honly
      rw [hsame] at hfield
      obtain rfl := List.mem_singleton.mp hfield
      rw [hbare]
      refine ⟨fun _ => .inr (hitem.trans (congrArg some hvalue)), fun hdropped => ?_⟩
      cases hdropped
    · obtain ⟨hbare, -⟩ := hnone field hfield
      rw [hbare]
      refine ⟨fun hkept => ?_, fun _ => .inr ⟨hbare, hitem.trans (congrArg some hvalue)⟩⟩
      cases hkept

end ItemRead

namespace Read

/-! ## Surveys in lockstep -/

/-- A result is made of the first. -/
theorem Lockstep.map_left {α β γ : Type} {R : α → β → Prop} {S : γ → β → Prop} {plan : Plan α}
    {other : Plan β} (h : Lockstep R plan other) {f : α → γ} (hf : ∀ a b, R a b → S (f a) b) :
    Lockstep S (plan >>= fun a => Pure.pure (f a)) other := by
  show Lockstep S (Dialogue.andThen plan _) other
  unfold Dialogue.andThen
  induction h with
  | ok h => exact .ok (hf _ _ h)
  | error error => exact .error error
  | ask question _ ih => exact .ask question ih
  | aside haside _ ih => exact .aside haside ih
  | asideOther haside _ ih => exact .asideOther haside ih

/-- A result or an error that both plans come upon. -/
theorem Lockstep.ofExcept {α β γ : Type} {S : β → γ → Prop} (result : Except Error α)
    {f : α → Plan β} {g : α → Plan γ} (h : ∀ a, result = .ok a → Lockstep S (f a) (g a)) :
    Lockstep S (Plan.ofExcept result >>= f) (Plan.ofExcept result >>= g) := by
  cases result with
  | ok a => exact h a rfl
  | error error => exact .error error

/-- The results of plans in lockstep, whatever answers them. -/
theorem Lockstep.result_answer {α β : Type} {R : α → β → Prop} {plan : Plan α} {other : Plan β}
    (h : Lockstep R plan other) (setup : Setup) (before : List Event) :
    Stage.SameEnd R (plan.answer setup before).result (other.answer setup before).result :=
  (Stage.answerAll_matches h setup (.refl (Stage.empty.log before))).1

namespace Pass

variable {pass : Pass} {placement : Placement} {inFile : Bool} {scope : Scope}
  {name : Option String} {transform : Option Transform} {record : Fields Value}

/-- A survey of a node tells what the pass gives for it, with items that are faithful; and within a
file, what the node adds to the record is what was found. -/
structure Tells (placement : Placement) (inFile : Bool) (record : Fields Value)
    (surveyed : Surveyed) (kept : Kept) : Prop where
  kept : kept = surveyed.1
  items : ∀ item ∈ surveyed.2.items, item.Distinct → item.Faithful
  record : inFile = true → surveyed.1.2 =
    Fields.insertAll record (Found.entries surveyed.2.found)
  fill : inFile = true → Found.Fill placement surveyed.1.1 surveyed.2.found

/-- The same of several nodes. -/
structure TellsAll (placement : Placement) (inFile : Bool) (record : Fields Value)
    (nodes : List Node) (surveyed : SurveyedAll) (walked : List Value × Fields Value) : Prop where
  walked : walked = surveyed.1
  length : surveyed.1.1.length = nodes.length
  items : ∀ item ∈ surveyed.2.flatMap Survey.items, item.Distinct → item.Faithful
  record : inFile = true → surveyed.1.2 =
    Fields.insertAll record (Found.entries (surveyed.2.flatMap Survey.found))
  fill : inFile = true →
    List.Forall₂ (Found.Fill placement) surveyed.1.1 (surveyed.2.map Survey.found)

/-! ### Fields -/

/-- A value that is kept under a name. -/
def Keeps (name : Option String) (record : Fields Value) (kept other : Kept) : Prop :=
  other = kept ∧ ∃ value, kept = keep name record value

theorem settle_keeps (value : Value) :
    Lockstep (Keeps name record) (pass.settle name scope transform record value)
      (pass.settle name scope transform record value) := by
  cases name with
  | none => exact .pure ⟨rfl, value, rfl⟩
  | some name => exact .same _ fun settled => .pure ⟨rfl, settled, rfl⟩

theorem int_keeps (kind : IntKind) :
    Lockstep (Keeps name record) (pass.int kind name scope transform record)
      (pass.int kind name scope transform record) :=
  .same _ fun _ => settle_keeps _

theorem float_keeps (kind : FloatKind) :
    Lockstep (Keeps name record) (pass.float kind name scope transform record)
      (pass.float kind name scope transform record) :=
  .same _ fun _ => .same _ fun _ => .same _ fun _ => settle_keeps _

theorem string_keeps (kind : IntKind) (text : Node) :
    Lockstep (Keeps name record) (pass.string kind text name scope transform record)
      (pass.string kind text name scope transform record) := by
  refine .same _ fun n => .same _ fun length => ?_
  split
  · exact .same _ fun _ => settle_keeps _
  · exact .error _

theorem custom_keeps (codec : Codec) (kind : String) :
    Lockstep (Keeps name record) (pass.custom codec kind name scope transform record)
      (pass.custom codec kind name scope transform record) :=
  .same _ fun _ => .same _ fun _ => .same _ fun _ => .same _ fun _ => settle_keeps _

theorem surveyField_tells {read : Plan Kept} (h : Lockstep (Keeps name record) read read)
    (hname : placement ≠ .element → name.isSome) :
    Lockstep (Tells placement inFile record) (surveyField name read) read := by
  refine h.map_left fun kept other hkept => ?_
  obtain ⟨rfl, value, rfl⟩ := hkept
  refine ⟨rfl, fun item hitem => ?_, fun _ => ?_, fun _ => Found.fill_field name _ hname⟩
  · cases hitem
  · cases name <;> rfl

/-! ### Nodes that arrange others -/

theorem surveyArranged_tells {nodes : List Node} {surveyed : Plan SurveyedAll}
    {walked : Plan (List Value × Fields Value)}
    (h : Lockstep (TellsAll .child inFile record nodes) surveyed walked) :
    Lockstep (Tells placement inFile record) (surveyArranged surveyed) (arrange walked) := by
  refine h.bind fun told read htold => .pure ⟨?_, htold.items, fun hfile => ?_, fun hfile => ?_⟩
  · rw [htold.walked]
  · rw [htold.record hfile]
    exact congrArg _ (Found.entries_within _).symm
  · refine Found.fill_arranged fun field hfield => ?_
    obtain ⟨survey, hsurvey, hfield⟩ := List.mem_flatMap.mp hfield
    exact Found.named_of_fill (htold.fill hfile) Placement.noConfusion survey.found
      (List.mem_map_of_mem hsurvey) field hfield

/-- Within a file no other file is opened; and what lies outside of all files is no field. -/
theorem surveyFile_tells (relative : String) {nodes : List Node}
    {content : Scope → Fields Value → Plan SurveyedAll}
    {content' : Scope → Fields Value → Plan (List Value × Fields Value)}
    (h : ∀ inner record,
      Lockstep (TellsAll placement inner.file.isSome record nodes) (content inner record)
        (content' inner record)) :
    Lockstep (fun told read => scope.file = none ∧ read = told.1 ∧
        ∀ item ∈ told.2, item.Distinct → item.Faithful)
      (pass.surveyFile relative scope record content)
      (pass.inFile relative scope record content') := by
  refine .ofExcept _ fun inner hinner => .same _ fun _ => .same _ fun _ => ?_
  refine (h inner _).bind fun told read htold => .same _ fun _ => .pure ⟨?_, ?_, htold.items⟩
  · unfold Scope.enterFile at hinner
    cases hfile : scope.file with
    | none => rfl
    | some path =>
      rw [hfile] at hinner
      cases hinner
  · rw [htold.walked]

/-! ### Sequences -/

/-- What is surveyed of an item fills it. -/
theorem TellsAll.fills {elements : List Node} {surveyed : SurveyedAll}
    {walked : List Value × Fields Value} (h : TellsAll .element true [] elements surveyed walked) :
    ItemRead.Fills ⟨elements, surveyed.2.map Survey.found,
      Node.itemValue elements surveyed.1.2 surveyed.1.1⟩ surveyed.1.1 surveyed.1.2 := by
  refine ⟨h.length, h.fill rfl, ?_, rfl⟩
  have hrecord := h.record rfl
  rw [List.flatMap_def] at hrecord
  exact hrecord

theorem surveyItem_tells {elements : List Node} (ofName : Option Transform) (index : Nat)
    {content : Plan SurveyedAll} {content' : Plan (List Value × Fields Value)}
    (h : Lockstep (TellsAll .element true [] elements) content content') :
    Lockstep (fun told value => value = told.1 ∧ ∀ item ∈ told.2, item.Distinct → item.Faithful)
      (pass.surveyItem elements ofName scope record index content) (do
        let (results, itemRecord) ← content'
        let value ← pass.transformed ofName (scope.item index) record
          (Node.itemValue elements itemRecord results)
        .event (.itemDone scope.trail index)
        return value) := by
  refine h.bind fun told read htold => ?_
  rw [htold.walked]
  refine .same _ fun value => .same _ fun _ => .pure ⟨rfl, List.forall_mem_cons.mpr ⟨?_, ?_⟩⟩
  · exact htold.fills.faithful
  · exact htold.items

/-- The values of items in order, and all that was read below them. -/
theorem gathered {told : List (Value × List ItemRead)} {values : List Value}
    (h : List.Forall₂ (fun told value => value = told.1 ∧
      ∀ item ∈ told.2, item.Distinct → item.Faithful) told values) :
    values = told.map Prod.fst ∧
      ∀ item ∈ told.flatMap Prod.snd, item.Distinct → item.Faithful := by
  induction h with
  | nil => exact ⟨rfl, List.forall_mem_nil _⟩
  | cons hfirst _ ih =>
    rw [hfirst.1, ih.1]
    exact ⟨rfl, List.forall_mem_append.mpr ⟨hfirst.2, ih.2⟩⟩

theorem surveySequence_tells {elements : List Node} (scope : Scope) (kind : IntKind)
    (hname : placement ≠ .element → name.isSome)
    {content : Scope → Option Transform → Plan SurveyedAll}
    {content' : Scope → Option Transform → Plan (List Value × Fields Value)}
    (h : ∀ index transform, Lockstep (TellsAll .element scope.file.isSome [] elements)
      (content (scope.item index) transform) (content' (scope.item index) transform)) :
    Lockstep (Tells placement scope.file.isSome record)
      (pass.surveySequence kind elements name scope transform record content)
      (pass.sequence kind elements name scope transform record content') := by
  unfold surveySequence sequence
  cases hscope : scope.file with
  | none =>
    rw [integer_outside hscope]
    exact .error _
  | some path =>
    rw [hscope] at h
    refine .same _ fun n => .same _ fun count => ?_
    refine (Lockstep.collect (fun index => surveyItem_tells _ index (h index _)) count 0
      .nil).bind fun told values htold => ?_
    obtain ⟨rfl, hitems⟩ := gathered htold
    refine .pure ⟨rfl, hitems, fun _ => ?_, fun _ => Found.fill_field name _ hname⟩
    cases name <;> rfl

/-! ### Trees -/

mutual

/-- **A survey tells what the pass gives.** -/
theorem survey_tells (site : Site) (scope : Scope) (transform : Option Transform)
    (record : Fields Value) : ∀ node : Node, node.Admitted site.placement →
      Lockstep (Tells site.placement scope.file.isSome record)
        (pass.survey site scope transform record node) (pass.walk site scope transform record node)
  | .mk kind name default payload => by
    intro hnode
    obtain ⟨-, hparts, hchildren⟩ := hnode.parts
    have hname := hnode.isSome_name
    cases kind with
    | order order children =>
      rw [survey, walk]
      exact surveyArranged_tells
        (surveyAll_tells (site.below .child _) (scope.withOrder order) transform record children
          hchildren)
    | group children =>
      rw [survey, walk]
      exact surveyArranged_tells
        (surveyAll_tells (site.below .child _) scope transform record children hchildren)
    | directory path children =>
      rw [survey, walk]
      exact surveyArranged_tells
        (surveyAll_tells (site.below .child _) (scope.enterDir path) _ record children hchildren)
    | file path children =>
      rw [survey, walk]
      refine (surveyFile_tells path fun inner record =>
        surveyAll_tells (site.below .child _) inner _ record children hchildren).bind
          fun told read htold => .pure ?_
      obtain ⟨hfile, rfl, hitems⟩ := htold
      refine ⟨rfl, hitems, fun hsome => ?_, fun hsome => ?_⟩
      · rw [hfile] at hsome
        cases hsome
      · rw [hfile] at hsome
        cases hsome
    | select choose =>
      rw [survey, walk]
      exact .same _ fun _ => surveyChosen_tells (site.ofSelect _) scope transform record _
    | custom codec =>
      rw [survey, walk]
      exact surveyField_tells (custom_keeps codec _) (hname rfl)
    | text encoding =>
      rw [survey, walk]
      exact .error _
    | float kind =>
      rw [survey, walk]
      exact surveyField_tells (float_keeps kind) (hname rfl)
    | int kind =>
      cases payload with
      | none =>
        rw [survey, walk]
        exact surveyField_tells (int_keeps kind) (hname rfl)
      | text text =>
        rw [survey, walk]
        exact surveyField_tells (string_keeps kind text) (hname rfl)
      | sequence elements =>
        rw [survey, walk]
        let here := scope.field (Node.label (.mk (.int kind) name default (.sequence elements)))
        refine surveySequence_tells here kind (hname rfl) fun index inner => ?_
        exact surveyAll_tells (site.below .element _) (here.item index) inner [] elements hparts
termination_by structural node => node

theorem surveyChosen_tells (site : Site) (scope : Scope) (transform : Option Transform)
    (record : Fields Value) : ∀ chosen : Noted Node,
      Lockstep (Tells site.placement scope.file.isSome record)
        (pass.surveyChosen site scope transform record chosen)
        (pass.walkChosen site scope transform record chosen)
  | ⟨node, notes⟩ => by
    rw [surveyChosen, walkChosen]
    refine .same _ fun _ => .ofExcept _ fun schema hschema => ?_
    obtain ⟨hroot, hsite⟩ := Schema.of_attachAt hschema
    have hplacement : schema.rootSite.placement = site.placement := by
      rw [← hsite]
      rfl
    have hnode : node.Admitted schema.rootSite.placement :=
      ⟨schema.site, rfl, hroot ▸ schema.checked⟩
    rw [← hplacement]
    exact survey_tells schema.rootSite scope transform record node hnode
termination_by structural chosen => chosen

theorem surveyAll_tells (site : Site) (scope : Scope) (transform : Option Transform)
    (record : Fields Value) : ∀ nodes : List Node, (∀ node ∈ nodes, node.Admitted site.placement) →
      Lockstep (TellsAll site.placement scope.file.isSome record nodes)
        (pass.surveyAll site scope transform record nodes)
        (pass.walkAll site scope transform record nodes)
  | [] => by
    intro _
    rw [surveyAll, walkAll]
    exact .pure ⟨rfl, rfl, List.forall_mem_nil _, fun _ => rfl, fun _ => .nil⟩
  | node :: rest => by
    intro hnodes
    rw [surveyAll, walkAll]
    refine (survey_tells site scope transform record node (hnodes node List.mem_cons_self)).bind
      fun told kept htold => ?_
    rw [htold.kept]
    refine (surveyAll_tells site scope transform _ rest fun other hother =>
      hnodes other (List.mem_cons_of_mem _ hother)).bind fun toldRest walked hrest => .pure ?_
    refine ⟨?_, congrArg (· + 1) hrest.length, ?_, fun hfile => ?_, fun hfile => ?_⟩
    · rw [hrest.walked]
    · exact List.forall_mem_append.mpr ⟨htold.items, hrest.items⟩
    · rw [hrest.record hfile, htold.record hfile, List.flatMap_cons, Found.entries_append]
      exact List.foldl_append.symm
    · exact .cons (htold.fill hfile) (hrest.fill hfile)
termination_by structural nodes => nodes

end

end Pass

end Read

open Read

/-! ## Whole passes -/

/-- The survey of a layout is its read pass, with items that are faithful. -/
theorem Schema.surveyPlan_tells (schema : Schema) (transform : Option Transform)
    (options : Options) :
    Lockstep (fun told record => record = told.1 ∧
        ∀ item ∈ told.2, item.Distinct → item.Faithful)
      (schema.surveyPlan transform options) (schema.readPlan transform options) := by
  have hroot : schema.root.Admitted schema.rootSite.placement :=
    ⟨schema.site, rfl, schema.checked⟩
  unfold surveyPlan readPlan
  dsimp only
  split
  · refine .same _ fun target => .same _ fun _ => ?_
    refine (Pass.surveyFile_tells target.2 fun inner record => Pass.surveyAll_tells _ inner
      transform record [schema.root] fun node hnode => ?_).mono fun _ _ htold => htold.2
    rw [List.mem_singleton.mp hnode]
    exact hroot
  · refine (Pass.survey_tells _ _ transform [] schema.root hroot).bind fun told kept htold =>
      .pure ⟨?_, htold.items⟩
    rw [htold.kept]

/-- **What an item keeps of its fields.** A read pass that ends well gives the record that its
survey gives, from the same sources. Of every item that is read, if the fields that were found for
its elements have distinct names, each field occurs in the value of the item unless the item drops
it: a record drops the unnamed fields, and a list of values the fields that some element arranges.
What is dropped is lost. -/
theorem Schema.read_items (schema : Schema) (transform : Option Transform) (options : Options)
    (opener : SourceOpener) {record : Fields Value}
    (h : (schema.read transform options opener).result = .ok record) :
    ∃ items, (schema.survey transform options opener).result = .ok (record, items) ∧
      (schema.survey transform options opener).Alike (schema.read transform options opener) ∧
      ∀ item ∈ items, item.Distinct → ∀ index fields, item.found[index]? = some fields →
        ∀ field ∈ fields, (item.drops field = false → item.Holds index field) ∧
          (item.drops field = true → item.Lacks index field) := by
  have htells := schema.surveyPlan_tells transform options
  have hend : Stage.SameEnd _ (schema.survey transform options opener).result
      (schema.read transform options opener).result := htells.result_answer _ _
  rw [h] at hend
  cases hsurvey : (schema.survey transform options opener).result with
  | error error =>
    rw [hsurvey] at hend
    exact absurd hend id
  | ok told =>
    rw [hsurvey] at hend
    obtain ⟨rfl, hitems⟩ : record = told.1 ∧ _ := hend
    exact ⟨told.2, rfl, htells.answer _ _, hitems⟩

/-- A sequence of named bytes, with an unnamed one beside each that a `select` chooses, and one of
unnamed bytes, each with a group. -/
def mixture : Schema :=
  ⟨.ofKind (.order .big [
      (byteField "s").withSequence
        [byteField "a", .ofKind (.select fun _ => ⟨.ofKind (.int .u8), []⟩)],
      (byteField "t").withSequence [.ofKind (.int .u8), .ofKind (.group [byteField "b"])]]),
    .root, rfl⟩

theorem mixture_builtIn : mixture.root.Every Kind.BuiltIn := by
  have hfield : ∀ name, (byteField name).Every Kind.BuiltIn := fun _ => ⟨trivial, trivial, trivial⟩
  have hunnamed : (Node.ofKind (.int .u8)).Every Kind.BuiltIn := ⟨trivial, trivial, trivial⟩
  refine ⟨trivial, trivial, ⟨trivial, ⟨hfield "a", ⟨trivial, trivial, fun _ => hunnamed⟩, trivial⟩,
    trivial⟩, ⟨trivial, ⟨hunnamed, ⟨trivial, trivial, hfield "b", trivial⟩, trivial⟩, trivial⟩,
    trivial⟩

/-- One item for each sequence. -/
def mixtureBytes : List UInt8 := [1, 5, 7, 1, 6, 8]

/-- The record of `mixtureBytes`, without the bytes 7 and 8. -/
def mixtureRecord : Fields Value :=
  [("s", .list [.record [("a", .int 5)]]), ("t", .list [.list [.int 6, .null]])]

theorem mixture_read :
    (mixture.read none taggedOptions fun _ _ => .ok (.ofBytes mixtureBytes)).result =
      .ok mixtureRecord := by
  obtain ⟨results, hparse⟩ : ∃ results,
      (mixture.contentPlan none taggedOptions.user ("", "out")).parse mixtureBytes =
        .ok ((results, mixtureRecord), []) := ⟨_, rfl⟩
  exact Schema.read_of_parse rfl mixture_builtIn splitTarget_out (gives_ofBytes mixtureBytes).brings
    hparse

theorem Schema.read_items_mixture :
    ∃ items, (mixture.survey none taggedOptions fun _ _ => .ok (.ofBytes mixtureBytes)).result =
        .ok (mixtureRecord, items) ∧
      (mixture.survey none taggedOptions fun _ _ => .ok (.ofBytes mixtureBytes)).Alike
        (mixture.read none taggedOptions fun _ _ => .ok (.ofBytes mixtureBytes)) ∧
      ∀ item ∈ items, item.Distinct → ∀ index fields, item.found[index]? = some fields →
        ∀ field ∈ fields, (item.drops field = false → item.Holds index field) ∧
          (item.drops field = true → item.Lacks index field) :=
  Schema.read_items mixture none taggedOptions _ mixture_read

/-- Each of the two items drops a field. -/
example :
    ((Pass.surveyAll { user := .null, nest := false } mixture.rootSite
      { Scope.base "" with trail := "out", file := some "out" } none [] [mixture.root]).parse
      mixtureBytes).map (fun parsed => (parsed.1.2.flatMap Survey.items).map fun item =>
        (item.value, item.found.flatten.filter item.drops)) =
    .ok [(.record [("a", .int 5)], [⟨none, .int 7, true⟩]),
      (.list [.int 6, .null], [⟨some "b", .int 8, false⟩])] := rfl

end ByteLayout
