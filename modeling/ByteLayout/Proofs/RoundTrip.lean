import ByteLayout.Proofs.Yielding
import Mathlib

/-!
# Round trips

**Theorem (`Schema.round_trip`).** A record that conforms to a plain layout can be written, and the
bytes that come about are read as that record.

A field yields the value that its input has for it (`Pass.integer_yields`), and a tree yields the
record that has, under the names of its fields, what the given record has there
(`Pass.entries_yields`). So the write pass keeps the given record, and the read pass that follows it
reads that.
-/

namespace ByteLayout

namespace Write

variable {α β : Type}

namespace Pass

open Script

/-! ## The walk -/

/-- A scope in a file and, if asked for, below a byte order. -/
structure Ready (ordered : Bool) (scope : Scope) : Prop where
  file : scope.file.isSome
  order : ordered = true → scope.order.isSome

namespace Ready

variable {ordered : Bool} {scope : Scope}

theorem withOrder (h : Ready ordered scope) (order : ByteOrder) :
    Ready true (scope.withOrder order) :=
  ⟨h.file, fun _ => rfl⟩

theorem field (h : Ready ordered scope) (segment : String) : Ready ordered (scope.field segment) :=
  ⟨h.file, h.order⟩

theorem item (h : Ready ordered scope) (index : Nat) : Ready ordered (scope.item index) :=
  ⟨h.file, h.order⟩

theorem fieldOrder (h : Ready true scope) (kind : String) :
    ∃ order, scope.fieldOrder kind = .ok order := by
  obtain ⟨path, hpath⟩ := Option.isSome_iff_exists.mp h.file
  obtain ⟨order, horder⟩ := Option.isSome_iff_exists.mp (h.order rfl)
  refine ⟨order, ?_⟩
  unfold Scope.fieldOrder Scope.requireOrder
  rw [hpath, horder]

end Ready

theorem arrange_yields {walked : Script (List Value × Fields Value)} {results : List Value}
    {after : Fields Value} (h : walked.Yields (results, after)) :
    (arrange walked).Yields (.null, after) :=
  h.bind (yields_pure _)

/-! ### Where items find their values -/

/-- A lone element without name is written from the item as a whole. -/
theorem lookup?_lone {elements : List Node} (hkeyed : ¬elements.all Node.isKeyed)
    (hlone : elements.length = 1) {item : Value} :
    ∀ i node value, elements[i]? = some node → [item][i]? = some value →
      (itemInput elements.length (.ofValue item) (0 + i)).lookup? node.name =
        some (.ofValue value) := by
  intro i node value hnode hvalue
  rcases Node.lone_of_not_keyed hkeyed with hmore | ⟨lone, rfl, hname⟩
  · omega
  · cases i with
    | zero =>
      cases hnode
      cases hvalue
      rw [hname]
      cases item <;> rfl
    | succ i => cases hnode

/-- Of several elements each is written from its position in the list. -/
theorem lookup?_position {elements : List Node} (hmore : 1 < elements.length)
    {values : List Value} :
    ∀ i node value, elements[i]? = some node → values[i]? = some value →
      (itemInput elements.length (.ofValue (.list values)) (0 + i)).lookup? node.name =
        some (.ofValue value) := by
  intro i node value _ hvalue
  have hposition : itemInput elements.length (.list (Provider.ofItems values)) (0 + i) =
      .exactly (.ofValue value) := by
    unfold itemInput
    dsimp only
    rw [if_pos hmore, Provider.ofItems_eq_map, Nat.zero_add, List.getElem?_map, hvalue]
    rfl
  exact congrArg (Input.lookup? · node.name) hposition

variable (pass : Pass)

mutual

/-- **An integer yields the value that its input has for it.** -/
theorem integer_yields (site : Site) {scope : Scope} (hready : Ready true scope) (kind : IntKind)
    (name : Option String) (default : Option Value) {input : Input} (record : Fields Value)
    {value : Value} (h : input.lookup? name = some (.ofValue value)) :
    ∀ payload : Payload, Node.PlainPayload payload → Node.FitsPayload kind payload value →
      (pass.walk site scope input record (.mk (.int kind) name default payload)).Yields
        (keep name record value)
  | .none => by
    rintro - ⟨n, rfl, hn⟩
    obtain ⟨order, horder⟩ := (hready.field _).fieldOrder kind.label
    rw [walk]
    exact int_yields horder h hn
  | .text text => by
    rintro htext ⟨content, rfl, hcontent⟩
    obtain ⟨order, horder⟩ := (hready.field _).fieldOrder kind.label
    rw [walk]
    exact string_yields horder htext h hcontent
  | .sequence elements => by
    rintro ⟨hregular, hplain⟩ ⟨items, rfl, hlength, hitems⟩
    have hfield := hready.field (Node.mk (.int kind) name default (.sequence elements)).label
    obtain ⟨order, horder⟩ := hfield.fieldOrder kind.label
    rw [walk]
    refine sequence_yields horder h hlength fun index item hitem => ?_
    have hinner := hfield.item index
    have hshaped := hitems item hitem
    unfold Node.Shaped at hshaped
    unfold Node.Regular at hregular
    by_cases hkeyed : elements.all Node.isKeyed
    · rw [if_pos hkeyed] at hshaped hregular
      obtain ⟨fields, rfl, hexactly, hfits⟩ := hshaped
      obtain ⟨results, after, hyields, hcopies⟩ := entriesAll_yields _ hinner fields [] _
        (fun _ => rfl) 0 elements hplain hfits
      obtain rfl := hcopies.eq hexactly
      exact ⟨results, after, hyields, Node.itemValue_of_keyed results hkeyed hregular hexactly⟩
    · rw [if_neg hkeyed] at hshaped
      by_cases hlone : elements.length = 1
      · rw [if_pos hlone] at hshaped
        obtain ⟨after, hyields⟩ := each_yields _ hinner _ elements [item] 0 [] hplain hshaped
          (lookup?_lone hkeyed hlone)
        exact ⟨[item], after, hyields, Node.itemValue_of_lone hkeyed hlone⟩
      · rw [if_neg hlone] at hshaped
        obtain ⟨values, rfl, hfits⟩ := hshaped
        have hmore := Node.one_lt_length_of_not_keyed hkeyed hlone
        obtain ⟨after, hyields⟩ := each_yields _ hinner _ elements values 0 [] hplain hfits
          (lookup?_position hmore)
        exact ⟨values, after, hyields, Node.itemValue_of_positions hkeyed hmore⟩
termination_by structural payload => payload

/-- **A field yields the value that its input has for it.** -/
theorem field_yields (site : Site) {scope : Scope} (hready : Ready true scope) {input : Input}
    (record : Fields Value) {value : Value} :
    ∀ node : Node, node.Plain true → node.Fits value →
      input.lookup? node.name = some (.ofValue value) →
        (pass.walk site scope input record node).Yields (keep node.name record value)
  | .mk kind name default payload => by
    rintro ⟨hpayload, hplain⟩ hfits h
    cases kind with
    | int kind => exact integer_yields site hready kind name default record h payload hpayload hfits
    | float kind =>
      obtain ⟨x, rfl, hx⟩ := hfits
      obtain ⟨order, horder⟩ := (hready.field _).fieldOrder kind.label
      rw [walk]
      exact float_yields horder h hx
    | _ => cases hfits
termination_by structural node => node

/-- **A tree yields the record with the entries of its fields.** -/
theorem entries_yields (site : Site) {ordered : Bool} {scope : Scope}
    (hready : Ready ordered scope) (fields record : Fields Value) :
    ∀ node : Node, node.Plain ordered → node.FitsEntries fields → ∃ value after,
      (pass.walk site scope (.within (.record (Provider.ofFields fields))) record node).Yields
        (value, after) ∧ Fields.Copies fields node.names record after
  | .mk kind name default payload => by
    rintro ⟨hpayload, hplain⟩ hfits
    cases kind with
    | order order children =>
      obtain ⟨results, after, hyields, hcopies⟩ := entriesAll_yields _ (hready.withOrder order)
        fields record _ (fun _ => rfl) 0 children hplain hfits
      rw [walk]
      exact ⟨.null, after, arrange_yields hyields, hcopies⟩
    | group children =>
      obtain ⟨results, after, hyields, hcopies⟩ := entriesAll_yields _ hready
        fields record _ (fun _ => rfl) 0 children hplain hfits
      rw [walk]
      exact ⟨.null, after, arrange_yields hyields, hcopies⟩
    | int kind =>
      obtain ⟨key, value, rfl, hget, hfits⟩ := hfits
      obtain rfl : ordered = true := hplain
      exact ⟨_, _, integer_yields site hready kind _ default record
        (Provider.lookup?_ofFields hget) payload hpayload hfits, Fields.copies_insert record hget⟩
    | float kind =>
      obtain ⟨key, x, rfl, hget, hx⟩ := hfits
      obtain rfl : ordered = true := hplain
      obtain ⟨order, horder⟩ := (hready.field _).fieldOrder kind.label
      rw [walk]
      exact ⟨_, _, float_yields horder (Provider.lookup?_ofFields hget) hx,
        Fields.copies_insert record hget⟩
    | _ => cases hfits
termination_by structural node => node

theorem entriesAll_yields (site : Site) {ordered : Bool} {scope : Scope}
    (hready : Ready ordered scope) (fields record : Fields Value) (inputs : Nat → Input)
    (hinputs : ∀ index, inputs index = .within (.record (Provider.ofFields fields))) (index : Nat) :
    ∀ nodes : List Node, Node.PlainAll ordered nodes → Node.FitsAllEntries nodes fields →
      ∃ results after, (pass.walkAll site scope inputs index record nodes).Yields
        (results, after) ∧ Fields.Copies fields (Node.namesAll nodes) record after
  | [] => by
    intro _ _
    rw [walkAll]
    exact ⟨[], record, yields_pure _, Fields.copies_nil fields record⟩
  | node :: rest => by
    rintro ⟨hnode, hrest⟩ ⟨hfits, hfitsRest⟩
    obtain ⟨value, middle, hyields, hcopies⟩ :=
      entries_yields site hready fields record node hnode hfits
    obtain ⟨results, after, hyieldsRest, hcopiesRest⟩ := entriesAll_yields site hready fields
      middle inputs hinputs (index + 1) rest hrest hfitsRest
    rw [walkAll, hinputs index]
    exact ⟨value :: results, after, hyields.bind (hyieldsRest.bind (yields_pure _)),
      hcopies.append hcopiesRest⟩
termination_by structural nodes => nodes

/-- **Fields that find their values in the positions of a list yield these values.** -/
theorem each_yields (site : Site) {scope : Scope} (hready : Ready true scope)
    (inputs : Nat → Input) :
    ∀ (nodes : List Node) (values : List Value) (index : Nat) (record : Fields Value),
      Node.PlainAll true nodes → Node.FitsEach nodes values →
        (∀ i node value, nodes[i]? = some node → values[i]? = some value →
          (inputs (index + i)).lookup? node.name = some (.ofValue value)) →
        ∃ after, (pass.walkAll site scope inputs index record nodes).Yields (values, after)
  | [], values, index, record => by
    rintro - rfl -
    rw [walkAll]
    exact ⟨record, yields_pure _⟩
  | node :: rest, values, index, record => by
    rintro ⟨hnode, hrest⟩ ⟨value, others, rfl, hfits, hfitsRest⟩ hinputs
    have hyields := field_yields site hready record node hnode hfits (hinputs 0 node value rfl rfl)
    obtain ⟨after, hyieldsRest⟩ := each_yields site hready inputs rest others (index + 1)
      (keep node.name record value).2 hrest hfitsRest fun i other entry hother hentry => by
        rw [Nat.add_right_comm, Nat.add_assoc]
        exact hinputs (i + 1) other entry hother hentry
    rw [walkAll]
    refine ⟨after, hyields.bind (hyieldsRest.bind ?_)⟩
    show (Pure.pure ((keep node.name record value).1 :: others, after) : Script _).Yields _
    rw [keep_fst]
    exact yields_pure _
termination_by structural nodes => nodes

end

end Pass

/-! ## The one file -/

/-- A script ends well with a result, writes one file with some bytes, and what it found in its
provider is faithful. -/
structure Script.WritesFile (script : Script α) (a : α) (bytes : List UInt8) : Prop where
  outcome : script.outcome = .ok a
  faithful : script.Faithful
  file : ∃ path, Step.files [] script.steps = [(path, bytes)]

/-- A script ends well with a result, writes one file, and what it found in its provider is
faithful. -/
structure Script.WritesOne (script : Script α) (a : α) : Prop where
  outcome : script.outcome = .ok a
  faithful : script.Faithful
  file : ∃ path bytes, Step.files [] script.steps = [(path, bytes)]

theorem Script.WritesFile.writesOne {script : Script α} {a : α} {bytes : List UInt8}
    (h : script.WritesFile a bytes) : script.WritesOne a :=
  have ⟨path, hfile⟩ := h.file
  ⟨h.outcome, h.faithful, path, bytes, hfile⟩

theorem Script.Yields.writesFile {script : Script α} {f : α → Script β} {a : α} {b : β}
    {bytes : List UInt8} (h : script.Yields a) (hf : (f a).WritesFile b bytes) :
    (script >>= f).WritesFile b bytes := by
  refine ⟨(outcome_bind_of_ok h.outcome).trans hf.outcome,
    (faithful_bind h.outcome).mpr ⟨h.faithful, hf.faithful⟩, ?_⟩
  rw [steps_bind_of_ok h.outcome, Step.files_append_of_inside _ h.inside]
  exact hf.file

/-- What stays in the open file writes one file once it is opened before and closed behind. -/
theorem Script.Yields.enclosed {script : Script α} {a : α} (h : script.Yields a) (path : String)
    (f : α → β) :
    (step (.openFile path) >>= fun _ => script >>= fun a =>
      step (.closeFile path) >>= fun _ => Pure.pure (f a)).WritesFile (f a)
        (Step.content [] script.steps) := by
  have hsteps : (step (.openFile path) >>= fun _ => script >>= fun a =>
      step (.closeFile path) >>= fun _ => (Pure.pure (f a) : Script β)).steps =
        .openFile path :: (script.steps ++ [.closeFile path]) :=
    congrArg (Step.openFile path :: ·) (steps_bind_of_ok h.outcome)
  refine ⟨(outcome_bind_of_ok h.outcome).trans rfl, fun other hother => ?_, path, ?_⟩
  · rw [hsteps] at hother
    rcases List.mem_cons.mp hother with rfl | hother
    · trivial
    · rcases List.mem_append.mp hother with hother | hother
      · exact h.faithful other hother
      · rw [List.mem_singleton.mp hother]
        trivial
  · rw [hsteps, Step.files, Step.files_append_of_inside _ h.inside,
      Step.content_append_of_inside _ h.inside, Step.content, List.append_nil]
    rfl

theorem Pass.inFile_writesFile {pass : Pass} (hnest : pass.nest = false) {relative : String}
    {scope inner : Scope} {record after : Fields Value} {results : List Value}
    {content : Scope → Fields Value → Script (List Value × Fields Value)}
    (hinner : scope.enterFile relative = .ok inner)
    (h : (content inner record).Yields (results, after)) :
    (pass.inFile relative scope record content).WritesFile after
      (Step.content [] (content inner record).steps) := by
  unfold inFile
  rw [hnest]
  refine (Script.yields_ofExcept hinner).writesFile ?_
  refine (Script.yields_event (.trace (.opening _)) trivial).writesFile ?_
  exact h.enclosed _ Prod.snd

/-- The script of a layout without file nodes is that of its one file. -/
theorem Schema.writeScript_single {schema : Schema} (hfiles : schema.fileCount = 0)
    (provider : Provider) {options : Options} {target : String × String}
    (htarget : splitTarget options.path = .ok target) :
    schema.writeScript provider options =
      (Script.event (.trace (.singleFile .write options.path)) >>= fun _ =>
        Pass.inFile { user := options.user, nest := false } target.2 (.base target.1) []
          fun scope record =>
            Pass.walkAll { user := options.user, nest := false } schema.rootSite scope
              (fun _ => .within provider) 0 record [schema.root]) := by
  unfold Schema.writeScript
  rw [if_pos hfiles, htarget, hfiles]
  rfl

/-- The script of a conforming record ends well with that record, and writes one file. -/
theorem Schema.writeScript_conforming {schema : Schema} {record : Fields Value}
    (hplain : schema.root.Plain false) (hconforms : schema.Conforms record) {options : Options}
    {target : String × String} (htarget : splitTarget options.path = .ok target) :
    (schema.writeScript (.ofValue (.record record)) options).WritesOne record := by
  obtain ⟨inner, hinner, hready⟩ : ∃ inner,
      (Scope.base target.1).enterFile target.2 = .ok inner ∧ Pass.Ready false inner :=
    ⟨_, rfl, rfl, fun h => nomatch h⟩
  obtain ⟨results, after, hyields, hcopies⟩ :=
    Pass.entriesAll_yields { user := options.user, nest := false } schema.rootSite hready record []
      (fun _ => .within (.ofValue (.record record))) (fun _ => rfl) 0 [schema.root]
      ⟨hplain, trivial⟩ ⟨hconforms.entries, trivial⟩
  rw [Node.namesAll, Node.namesAll, List.append_nil] at hcopies
  obtain rfl := hcopies.eq hconforms.names
  rw [Schema.writeScript_single (Node.Plain.fileCount_eq_zero schema.root hplain) _ htarget]
  exact ((Script.yields_event (.trace (.singleFile _ _)) trivial).writesFile
    (Pass.inFile_writesFile rfl hinner hyields)).writesOne

end Write

/-- Whether an opener gives the same bytes under every path, from sources that do not fail. -/
def Read.SourceOpener.Gives (opener : Read.SourceOpener) (bytes : List UInt8) : Prop :=
  ∀ before path, ∃ behaviour, opener before path = .ok behaviour ∧ behaviour.Generous ∧
    behaviour.data = bytes

open Read Write

/-- **A conforming record is written, and read from the bytes.** -/
theorem Schema.round_trip (schema : Schema) {record : Fields Value}
    (hplain : schema.root.Plain false) (hconforms : schema.Conforms record)
    {writing reading : Options} (hwriting : ∃ target, splitTarget writing.path = .ok target)
    (hreading : ∃ target, splitTarget reading.path = .ok target) {opener : SinkOpener}
    (hsinks : opener.NeverFails) :
    let written := schema.write (.ofValue (.record record)) writing opener
    written.result = .ok record ∧ ∃ path bytes, written.contents = [(path, bytes)] ∧
      ∀ source : SourceOpener, source.Gives bytes →
        (schema.read none reading source).result = .ok record := by
  intro written
  obtain ⟨target, htarget⟩ := hwriting
  obtain ⟨houtcome, hfaithful, path, bytes, hfile⟩ :=
    Schema.writeScript_conforming hplain hconforms htarget
  refine ⟨(Schema.write_result hsinks).trans houtcome, path, bytes,
    (Schema.contents_write hsinks houtcome).trans hfile, fun source hsource => ?_⟩
  obtain ⟨last, hlast, hend⟩ := schema.writeScript_orderly (.ofValue (.record record)) writing
  obtain rfl := hend record houtcome
  have hfollows : Follows False (schema.readPlan none reading)
      (schema.writeScript (.ofValue (.record record)) writing) :=
    schema.readPlan_follows _ False.elim False.elim (.inr hreading)
      (Node.Plain.retraceable schema.root hplain)
  have hserves : source.Serves False
      (Step.files [] (schema.writeScript (.ofValue (.record record)) writing).steps) := by
    intro before file other content hcontent _
    rw [hfile, List.mem_singleton] at hcontent
    cases hcontent
    exact hsource before other
  exact (Plan.answer_retraces (hfollows record houtcome hfaithful)
    { opener := source, chunk := reading.clamped.bufferSize, debug := reading.debug }
    (reading.warnings .read) writing.debug hlast hserves).1

/-! ## A layout with items of every shape -/

/-- The double 1.0. -/
def one : Double := ⟨false, 1023 * Nat.pow 2 52, by decide⟩

/-- A version and a scale, pairs, lists of integers, and records with a text. -/
def catalogue : Schema :=
  ⟨.ofKind (.order .little [
    (Node.ofKind (.int .u16)).named "version",
    .ofKind (.group [(Node.ofKind (.float .f32)).named "scale"]),
    ((Node.ofKind (.int .u8)).named "pairs").withSequence
      [.ofKind (.int .i16), .ofKind (.float .f64)],
    ((Node.ofKind (.int .u8)).named "lists").withSequence
      [(Node.ofKind (.int .u8)).withSequence [.ofKind (.int .i8)]],
    ((Node.ofKind (.int .u32)).named "tags").withSequence [byteField "id",
      ((Node.ofKind (.int .u8)).named "text").withString (.ofKind (.text .utf16))]]), .root, rfl⟩

def catalogueRecord : Fields Value :=
  [("lists", .list [.list [.int 1, .int (-1)]]),
   ("pairs", .list [.list [.int (-2), .float one]]),
   ("scale", .float one),
   ("tags", .list [.record [("id", .int 7), ("text", .string "no")]]),
   ("version", .int 258)]

theorem represents_one (kind : FloatKind) : kind.Represents one := by
  cases kind with
  | f32 => exact ⟨⟨false, 127 * 2 ^ 23, by decide⟩, rfl, by decide +kernel⟩
  | f64 => exact FloatKind.represents_f64 one

theorem catalogue_plain : catalogue.root.Plain false := by
  have hpairs : Node.Regular [.ofKind (.int .i16), .ofKind (.float .f64)] := rfl
  have hlists : Node.Regular [(Node.ofKind (.int .u8)).withSequence [.ofKind (.int .i8)]] := rfl
  have hints : Node.Regular [.ofKind (.int .i8)] := rfl
  have htags : Node.Regular [byteField "id",
      ((Node.ofKind (.int .u8)).named "text").withString (.ofKind (.text .utf16))] :=
    List.cons_ne_nil "id" ["text"]
  exact ⟨trivial, ⟨trivial, rfl⟩, ⟨trivial, ⟨trivial, rfl⟩, trivial⟩,
    ⟨⟨hpairs, ⟨trivial, rfl⟩, ⟨trivial, rfl⟩, trivial⟩, rfl⟩,
    ⟨⟨hlists, ⟨⟨hints, ⟨trivial, rfl⟩, trivial⟩, rfl⟩, trivial⟩, rfl⟩,
    ⟨⟨htags, ⟨trivial, rfl⟩, ⟨trivial, rfl⟩, trivial⟩, rfl⟩, trivial⟩

theorem catalogue_conforms : catalogue.Conforms catalogueRecord := by
  have hnames : Fields.Exactly catalogueRecord catalogue.root.names := by
    refine ⟨by unfold Fields.Sorted catalogueRecord; decide, fun name => ?_⟩
    show name ∈ ["lists", "pairs", "scale", "tags", "version"] ↔
      name ∈ ["version", "scale", "pairs", "lists", "tags"]
    grind
  have hinner : ∀ item ∈ [Value.int 1, .int (-1)], Node.FitsEach [.ofKind (.int .i8)] [item] :=
    List.forall_mem_cons.mpr ⟨⟨_, _, rfl, ⟨1, rfl, by decide⟩, rfl⟩,
      List.forall_mem_singleton.mpr ⟨_, _, rfl, ⟨-1, rfl, by decide⟩, rfl⟩⟩
  have hlist : Node.FitsEach [(Node.ofKind (.int .u8)).withSequence [.ofKind (.int .i8)]]
      [.list [.int 1, .int (-1)]] :=
    ⟨_, _, rfl, ⟨_, rfl, by decide, hinner⟩, rfl⟩
  have hpair : Node.FitsEach [.ofKind (.int .i16), .ofKind (.float .f64)]
      [.int (-2), .float one] :=
    ⟨_, _, rfl, ⟨-2, rfl, by decide⟩, _, _, rfl, ⟨one, rfl, represents_one .f64⟩, rfl⟩
  have htag : Node.FitsAllEntries [byteField "id",
      ((Node.ofKind (.int .u8)).named "text").withString (.ofKind (.text .utf16))]
      [("id", .int 7), ("text", .string "no")] :=
    ⟨⟨_, _, rfl, rfl, 7, rfl, by decide⟩, ⟨_, _, rfl, rfl, "no", rfl, ⟨_, rfl⟩, by decide⟩, trivial⟩
  have htagNames : Fields.Exactly [("id", Value.int 7), ("text", .string "no")] ["id", "text"] :=
    ⟨by unfold Fields.Sorted; decide, fun _ => Iff.rfl⟩
  exact ⟨hnames, ⟨_, _, rfl, rfl, 258, rfl, by decide⟩,
    ⟨⟨_, one, rfl, rfl, represents_one .f32⟩, trivial⟩,
    ⟨_, _, rfl, rfl, _, rfl, by decide, List.forall_mem_singleton.mpr ⟨_, rfl, hpair⟩⟩,
    ⟨_, _, rfl, rfl, _, rfl, by decide, List.forall_mem_singleton.mpr hlist⟩,
    ⟨_, _, rfl, rfl, _, rfl, by decide,
      List.forall_mem_singleton.mpr ⟨_, rfl, htagNames, htag⟩⟩, trivial⟩

theorem splitTarget_out : splitTarget "out" = .ok ("", "out") := by cbv

theorem Schema.round_trip_catalogue :
    let written := catalogue.write (.ofValue (.record catalogueRecord)) taggedOptions
      fun _ _ => .ok .faultless
    written.result = .ok catalogueRecord ∧ ∃ path bytes, written.contents = [(path, bytes)] ∧
      ∀ source : Read.SourceOpener, source.Gives bytes →
        (catalogue.read none taggedOptions source).result = .ok catalogueRecord := by
  have htarget : ∃ target, splitTarget taggedOptions.path = .ok target := ⟨_, splitTarget_out⟩
  exact Schema.round_trip catalogue catalogue_plain catalogue_conforms htarget htarget
    SinkOpener.neverFails_faultless

end ByteLayout
