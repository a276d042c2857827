import ByteLayout.Proofs.Retracing
import ByteLayout.Proofs.Scalar
import ByteLayout.Proofs.Text
import ByteLayout.Read.Pass
import ByteLayout.Write.Pass

/-!
# Read passes follow write passes

**Theorem (`Read.Pass.walk_follows`).** The plan of a tree follows its script, whatever is provided:
at every node the read pass has the record that the write pass had there, so that the values it
reads are those that were written.

The tree has no custom nodes, as nothing is known of their codecs. If it has selects, the two passes
must be aligned, since what a callback picks may depend on all that it sees.
-/

namespace ByteLayout

/-! ## Trees without certain kinds -/

namespace Node

variable (P : Kind → Prop)

mutual

/-- Whether all kinds of a tree satisfy `P`, those in the results of its selects included. -/
def Every : Node → Prop
  | .mk kind _ _ payload => P kind ∧ EveryPayload payload ∧ EveryKind kind

def EveryPayload : Payload → Prop
  | .none => True
  | .text node => Every node
  | .sequence elements => EveryAll elements

def EveryKind : Kind → Prop
  | .order _ children => EveryAll children
  | .directory _ children => EveryAll children
  | .file _ children => EveryAll children
  | .group children => EveryAll children
  | .select choose => ∀ context, EveryNoted (choose context)
  | .custom _ | .text _ | .int _ | .float _ => True

def EveryNoted : Noted Node → Prop
  | ⟨node, _⟩ => Every node

def EveryAll : List Node → Prop
  | [] => True
  | node :: rest => Every node ∧ EveryAll rest

end

end Node

/-- Whether a read pass can follow a write pass through nodes of the kind. -/
def Kind.Retraceable (aligned : Prop) : Kind → Prop
  | .custom _ => False
  | .select _ => aligned
  | _ => True

/-! ## Mirrored scopes -/

/-- The scope of a read pass at the place of that of a write pass. -/
structure Scope.Mirrors (aligned : Prop) (scope other : Scope) : Prop where
  order : other.order = scope.order
  file : other.file.isSome = scope.file.isSome
  same : aligned → other = scope

namespace Scope.Mirrors

variable {aligned : Prop} {scope other : Scope}

theorem trail (h : scope.Mirrors aligned other) (haligned : aligned) :
    other.trail = scope.trail := by
  rw [h.same haligned]

theorem withOrder (h : scope.Mirrors aligned other) (order : ByteOrder) :
    (scope.withOrder order).Mirrors aligned (other.withOrder order) :=
  ⟨rfl, h.file, fun haligned => by rw [h.same haligned]⟩

theorem field (h : scope.Mirrors aligned other) (segment : String) :
    (scope.field segment).Mirrors aligned (other.field segment) :=
  ⟨h.order, h.file, fun haligned => by rw [h.same haligned]⟩

theorem item (h : scope.Mirrors aligned other) (index : Nat) :
    (scope.item index).Mirrors aligned (other.item index) :=
  ⟨h.order, h.file, fun haligned => by rw [h.same haligned]⟩

theorem enterDir (h : scope.Mirrors aligned other) (relative : String) :
    (scope.enterDir relative).Mirrors aligned (other.enterDir relative) :=
  ⟨h.order, h.file, fun haligned => by rw [h.same haligned]⟩

theorem fieldOrder (h : scope.Mirrors aligned other) {kind : String} {order : ByteOrder}
    (horder : scope.fieldOrder kind = .ok order) : other.fieldOrder kind = .ok order := by
  have hfile := h.file
  unfold Scope.fieldOrder Scope.requireOrder at horder ⊢
  rw [h.order]
  cases hscope : scope.file with
  | none =>
    rw [hscope] at horder
    cases horder
  | some path =>
    rw [hscope] at horder hfile
    obtain ⟨name, hname⟩ := Option.isSome_iff_exists.mp hfile
    rw [hname]
    dsimp only at horder ⊢
    cases hgiven : scope.order with
    | none =>
      rw [hgiven] at horder
      cases horder
    | some given =>
      rw [hgiven] at horder
      exact horder

theorem enterFile (h : scope.Mirrors aligned other) {relative name : String} {inner : Scope}
    (hname : aligned → name = relative) (hinner : scope.enterFile relative = .ok inner) :
    ∃ entered, other.enterFile name = .ok entered ∧ inner.Mirrors aligned entered ∧
      (aligned → Path.resolve other.dir name = Path.resolve scope.dir relative) := by
  have hfile := h.file
  unfold Scope.enterFile at hinner ⊢
  cases hscope : scope.file with
  | some path =>
    rw [hscope] at hinner
    cases hinner
  | none =>
    rw [hscope] at hinner hfile
    have hother : other.file = none :=
      Option.not_isSome_iff_eq_none.mp (by rw [hfile]; exact Bool.false_ne_true)
    rw [hother]
    cases hinner
    refine ⟨_, rfl, ⟨h.order, rfl, fun haligned => ?_⟩, fun haligned => ?_⟩
    · rw [h.same haligned, hname haligned]
    · rw [h.same haligned, hname haligned]

end Scope.Mirrors

/-- The read pass over the files of a write pass. -/
structure Write.Pass.Mirrors (aligned : Prop) (pass : Write.Pass) (other : Read.Pass) : Prop where
  nest : other.nest = pass.nest
  user : aligned → other.user = pass.user

namespace Read

open Write

variable {aligned : Prop} {α β : Type} {scope other : Scope}

/-! ## Scalars -/

theorem Retraces.fetch_of_length {next : Except Error (List UInt8) → Plan α} {steps : List Step}
    {a : α} {bytes : List UInt8} {count : Nat} (hcount : bytes.length = count)
    (rest : Retraces aligned (next (.ok bytes)) steps a) :
    Retraces aligned (.ask (.fetch count) next) (.scalar bytes :: steps) a := by
  subst hcount
  exact .fetch bytes rest

theorem Retraces.read_of_length {next : Except Error (List UInt8) → Plan α} {steps : List Step}
    {a : α} {bytes : List UInt8} {count : Nat} (hcount : bytes.length = count)
    (rest : Retraces aligned (next (.ok bytes)) steps a) :
    Retraces aligned (.ask (.read count) next) (.payload bytes :: steps) a := by
  subst hcount
  exact .read bytes rest

/-- An integer is read where it was written. -/
theorem retraces_integer (h : scope.Mirrors aligned other) {kind : IntKind} {order : ByteOrder}
    {n : Int} (horder : scope.fieldOrder kind.label = .ok order) (hn : kind.Holds n) :
    Retraces aligned (Pass.integer kind other)
      [.field scope.trail kind.label, .scalar (kind.encode order n)] n := by
  have hread : Retraces aligned (Pass.integer kind other)
      [.field scope.trail kind.label, .scalar (kind.encode order n)]
      (kind.decode order (kind.encode order n)) := by
    unfold Pass.integer
    rw [h.fieldOrder horder]
    exact .field _ h.trail (.fetch_of_length (kind.length_encode order n) (.done _))
  rwa [IntKind.decode_encode order hn] at hread

theorem Follows.after_scalar {plan : Plan α} {kind : String} {bytes : List UInt8} {n : α}
    {f : α → Plan β} {g : Script β}
    (h : Retraces aligned plan [.field scope.trail kind, .scalar bytes] n)
    (hf : Follows aligned (f n) g) :
    Follows aligned (plan >>= f) (Write.Pass.scalar scope kind bytes >>= fun _ => g) := by
  intro b hb hfaithful
  refine h.bind (hf b hb fun step hstep => hfaithful step ?_)
  exact List.mem_cons_of_mem _ (List.mem_cons_of_mem _ hstep)

theorem settle_none (pass : Pass) (name : Option String) (record : Fields Value) (value : Value) :
    pass.settle name other none record value = pure (keep name record value) := by
  cases name <;> rfl

variable {pass : Pass} {wpass : Write.Pass} {name : Option String} {default : Option Value}
  {input : Input} {record : Fields Value}

/-- What follows the byte order of a field. -/
theorem Follows.after_order {plan : Plan α} {kind : String} {g : ByteOrder → Script α}
    (h : ∀ order, scope.fieldOrder kind = .ok order → Follows aligned plan (g order)) :
    Follows aligned plan (.ofExcept (scope.fieldOrder kind) >>= g) :=
  .after_silent (Script.silent_of_no_steps rfl) fun order horder _ => h order horder

/-- **An integer field is read as the integer that was written.** -/
theorem int_retraces (h : scope.Mirrors aligned other) {kind : IntKind} {order : ByteOrder}
    {n : Int} (horder : scope.fieldOrder kind.label = .ok order) (hn : kind.Holds n) :
    Retraces aligned (pass.int kind name other none record)
      [.field scope.trail kind.label, .scalar (kind.encode order n)]
      (keep name record (.int n)) := by
  refine (retraces_integer h horder hn).bind ?_
  rw [settle_none]
  exact .done _

/-- **A float field is read as the double that its kind rounds the written one to.** -/
theorem float_retraces (h : scope.Mirrors aligned other) {kind : FloatKind} {order : ByteOrder}
    {x : Double} (horder : scope.fieldOrder kind.label = .ok order) :
    Retraces aligned (pass.float kind name other none record)
      [.field scope.trail kind.label, .scalar (kind.encode order x)]
      (keep name record (kind.decode order (kind.encode order x))) := by
  unfold Pass.float
  rw [h.fieldOrder horder]
  refine .field _ h.trail (.fetch_of_length (kind.length_encode order x) ?_)
  show Retraces aligned (pass.settle name other none record
    (kind.decode order (kind.encode order x))) [] _
  rw [settle_none]
  exact .done _

theorem countOf_natCast (scope : Scope) (count : Nat) : Pass.countOf scope count = .ok count := by
  unfold Pass.countOf
  rw [if_neg (Int.not_lt.mpr (Int.natCast_nonneg count)), Int.toNat_natCast]

/-- **A string field is read as the text that was written.** -/
theorem string_retraces (h : scope.Mirrors aligned other) {kind : IntKind} {order : ByteOrder}
    {text : Node} {encoding : TextEncoding} {content : String} {bytes : List UInt8}
    (horder : scope.fieldOrder kind.label = .ok order) (hkind : text.kind = .text encoding)
    (hbytes : encoding.toBytes content = .ok bytes)
    (hlength : kind.Holds (encoding.byteLength content)) :
    Retraces aligned (pass.string kind text name other none record)
      [.field scope.trail kind.label, .scalar (kind.encode order (encoding.byteLength content)),
        .payload bytes] (keep name record (.string content)) := by
  have hencode := TextEncoding.encode_of_toBytes hbytes
  obtain ⟨textKind, textName, textDefault, textPayload⟩ := text
  obtain rfl : textKind = .text encoding := hkind
  refine (retraces_integer h horder hlength).bind ?_
  rw [countOf_natCast]
  refine .read_of_length (TextEncoding.length_encode hencode) ?_
  show Retraces aligned (pass.settle name other none record
    (.string (encoding.decode bytes))) [] _
  rw [TextEncoding.decode_encode hencode, settle_none]
  exact .done _

theorem int_follows (h : scope.Mirrors aligned other) (kind : IntKind) :
    Follows aligned (pass.int kind name other none record)
      (wpass.int kind name default scope input record) := by
  intro kept hok _
  obtain ⟨order, n, horder, hn, rfl, hsteps⟩ := Write.Pass.int_eq_ok hok
  rw [hsteps]
  exact .after_silent (wpass.silent_resolve _ _ _ _ _ _) (int_retraces h horder hn)

/-- The value that a field is written from is written down. -/
theorem faithful_of_resolve {kind : String} {value : Value}
    (houtcome : (wpass.resolve kind name default scope input record).outcome = .ok value)
    (h : (wpass.resolve kind name default scope input record).Faithful) :
    (Event.resolved scope.trail kind value).Faithful := by
  unfold Write.Pass.resolve at houtcome h
  obtain ⟨given, hgiven, houtcome⟩ := Script.outcome_bind_eq_ok.mp houtcome
  obtain ⟨-, h⟩ := (Script.faithful_bind hgiven).mp h
  cases hor : given.or default with
  | none =>
    rw [hor] at houtcome
    cases houtcome
  | some found =>
    rw [hor] at houtcome h
    cases houtcome
    exact h _ List.mem_cons_self

theorem float_follows (h : scope.Mirrors aligned other) (kind : FloatKind) :
    Follows aligned (pass.float kind name other none record)
      (wpass.float kind name default scope input record) := by
  intro kept hok hfaithful
  obtain ⟨order, value, x, horder, hvalue, hx, rfl, hsteps⟩ := Write.Pass.float_eq_ok hok
  have hlookup : (wpass.resolve kind.label name default scope input record).Faithful := by
    intro step hstep
    exact hfaithful step (hsteps ▸ List.mem_append_left _ hstep)
  obtain ⟨y, rfl, hrepresents⟩ := faithful_of_resolve hvalue hlookup kind rfl
  obtain rfl := (FloatKind.nearestIn_of_check hx).2 y rfl
  rw [hsteps, ← FloatKind.decode_encode_of_represents order hrepresents]
  exact .after_silent (wpass.silent_resolve _ _ _ _ _ _) (float_retraces h horder)

theorem string_follows (h : scope.Mirrors aligned other) (kind : IntKind) (text : Node) :
    Follows aligned (pass.string kind text name other none record)
      (wpass.string kind text name default scope input record) := by
  intro kept hok _
  obtain ⟨order, encoding, content, bytes, horder, hkind, hbytes, hlength, rfl, hsteps⟩ :=
    Write.Pass.string_eq_ok hok
  rw [hsteps]
  exact .after_silent (wpass.silent_resolve _ _ _ _ _ _)
    (string_retraces h horder hkind hbytes hlength)

/-! ## Sequences and files -/

/-- A faithful supply has as many items as it declares. -/
theorem length_of_supply {provider : Provider} {supply : Write.Pass.Supply} {kind : IntKind}
    {n : Int} (houtcome : (wpass.supply scope record provider).outcome = .ok supply)
    (h : (wpass.supply scope record provider).Faithful)
    (hn : Write.Pass.countOf kind supply.count = .ok n) :
    kind.Holds n ∧ n = (supply.length : Int) := by
  have hcheck : kind.check supply.count = .ok n := by
    unfold Write.Pass.countOf at hn
    split at hn
    · next m hm =>
      cases hn
      exact hm
    · cases hn
  obtain ⟨hinteger, hholds⟩ := IntKind.holds_of_check hcheck
  refine ⟨hholds, ?_⟩
  cases provider with
  | list items =>
    cases houtcome
    exact (Except.ok.inj hinteger).symm
  | lazy generate =>
    unfold Write.Pass.supply at houtcome h
    obtain ⟨sequence, hsequence, houtcome⟩ := Script.outcome_bind_eq_ok.mp houtcome
    obtain ⟨-, h⟩ := (Script.faithful_bind hsequence).mp h
    cases houtcome
    have hdeclared : sequence.count.toInteger = .ok (sequence.length : Int) :=
      h _ List.mem_cons_self
    exact Except.ok.inj (hinteger.symm.trans hdeclared)
  | value _ => cases houtcome
  | record _ => cases houtcome
  | computed _ => cases houtcome

theorem sequence_follows (h : scope.Mirrors aligned other) (kind : IntKind)
    (elements : List Node)
    {content : Scope → Option Transform → Plan (List Value × Fields Value)}
    {written : Scope → Provider → Script (List Value × Fields Value)}
    (hcontent : ∀ (inner entered : Scope) (item : Provider), inner.Mirrors aligned entered →
      Follows aligned (content entered none) (written inner item)) :
    Follows aligned (pass.sequence kind elements name other none record content)
      (wpass.sequence kind elements name default scope input record written) := by
  have hname : (name.bind fun name => (none : Option Transform).bind (·.field? name)) = none := by
    cases name <;> rfl
  unfold Pass.sequence Write.Pass.sequence
  rw [hname]
  refine .after_order fun order horder => ?_
  refine .after_silent (wpass.silent_supplier _ _ _ _ _) fun provider _ _ => ?_
  refine .after_silent (wpass.silent_supply _ _ _) fun supply hsupply hfaithful => ?_
  refine .after_check fun n hn => ?_
  obtain ⟨hholds, rfl⟩ := length_of_supply hsupply hfaithful hn
  refine .after_scalar (retraces_integer h horder hholds) ?_
  rw [countOf_natCast]
  refine Follows.bind (.collectFrom (fun index => ?_) _ _ _) fun items _ => follows_pure _
  refine .after_silent (wpass.silent_pull _ _ _) fun item _ _ => ?_
  refine Follows.bind (hcontent _ _ item (h.item index)) fun walked _ => ?_
  exact Follows.bind (follows_unseen ⟨rfl, rfl⟩ ⟨rfl, rfl⟩) fun _ _ => follows_pure _

theorem inFile_follows (hpass : wpass.Mirrors aligned pass) (h : scope.Mirrors aligned other)
    {relative relative' : String} (haligned : aligned → relative' = relative)
    (hnested : wpass.nest = true → relative' = relative)
    {content : Scope → Fields Value → Plan (List Value × Fields Value)}
    {written : Scope → Fields Value → Script (List Value × Fields Value)}
    (hcontent : ∀ (inner entered : Scope) (record : Fields Value),
      inner.Mirrors aligned entered → Follows aligned (content entered record)
        (written inner record)) :
    Follows aligned (pass.inFile relative' other record content)
      (wpass.inFile relative scope record written) := by
  have hkept : ∀ fields : Fields Value,
      (if wpass.nest then Fields.insert record relative' (.record fields) else fields) =
        if wpass.nest then Fields.insert record relative (.record fields) else fields := by
    intro fields
    split
    · next hnest => rw [hnested hnest]
    · rfl
  unfold Pass.inFile Write.Pass.inFile
  rw [hpass.nest]
  refine .after_silent (Script.silent_of_no_steps rfl) fun inner hinner _ => ?_
  obtain ⟨entered, hentered, hmirrors, hpath⟩ := h.enterFile haligned hinner
  dsimp only
  rw [hentered]
  refine Follows.bind (follows_unseen ⟨rfl, rfl⟩ ⟨rfl, rfl⟩) fun _ _ => ?_
  refine Follows.bind (fun _ _ _ => .openFile hpath (.done ())) fun _ _ => ?_
  refine Follows.bind (hcontent inner entered _ hmirrors) fun walked _ => ?_
  refine Follows.bind (fun _ _ _ => .closeFile hpath (.done ())) fun _ _ => ?_
  rw [hkept]
  exact follows_pure _

theorem arrange_follows {plan : Plan (List Value × Fields Value)}
    {script : Script (List Value × Fields Value)} (h : Follows aligned plan script) :
    Follows aligned (Pass.arrange plan) (Write.Pass.arrange script) :=
  h.bind fun _ _ => follows_pure _

/-! ## The walk -/

mutual

/-- **The plan of a tree follows its script.** -/
theorem walk_follows (hpass : wpass.Mirrors aligned pass) (site : Site)
    {scope other : Scope} (h : scope.Mirrors aligned other)
    (input : Input) (record : Fields Value) : ∀ node : Node,
      node.Every (Kind.Retraceable aligned) → Follows aligned
        (pass.walk site other none record node) (wpass.walk site scope input record node)
  | .mk kind name default payload => by
    rintro ⟨hkind, hpayload, hbelow⟩
    cases kind with
    | order order children =>
      rw [Pass.walk, Write.Pass.walk]
      exact arrange_follows (walkAll_follows hpass _ (h.withOrder order) _ 0 record children hbelow)
    | group children =>
      rw [Pass.walk, Write.Pass.walk]
      exact arrange_follows (walkAll_follows hpass _ h _ 0 record children hbelow)
    | directory path children =>
      rw [Pass.walk, Write.Pass.walk]
      exact arrange_follows (walkAll_follows hpass _ (h.enterDir path) _ 0 record children hbelow)
    | file path children =>
      rw [Pass.walk, Write.Pass.walk]
      refine Follows.bind (inFile_follows hpass h (fun _ => rfl) (fun _ => rfl)
        fun inner entered record hinner => ?_) fun _ _ => follows_pure _
      exact walkAll_follows hpass _ hinner _ 0 record children hbelow
    | select choose =>
      have hsame : other.context pass.user record = scope.context wpass.user record := by
        rw [h.same hkind, hpass.user hkind]
      rw [Pass.walk, Write.Pass.walk]
      refine Follows.bind (follows_select fun _ => hsame) fun _ _ => ?_
      rw [hsame]
      exact walkChosen_follows hpass _ h input record (choose (scope.context wpass.user record))
        (hbelow _)
    | custom codec => exact absurd hkind id
    | text encoding =>
      rw [Write.Pass.walk]
      exact follows_fail _ _
    | float kind =>
      rw [Pass.walk, Write.Pass.walk]
      exact float_follows (h.field _) kind
    | int kind =>
      cases payload with
      | none =>
        rw [Pass.walk, Write.Pass.walk]
        exact int_follows (h.field _) kind
      | text text =>
        rw [Pass.walk, Write.Pass.walk]
        exact string_follows (h.field _) kind text
      | sequence elements =>
        rw [Pass.walk, Write.Pass.walk]
        exact sequence_follows (h.field _) kind elements fun inner entered item hinner =>
          walkAll_follows hpass _ hinner _ 0 [] elements hpayload
termination_by structural node => node

theorem walkChosen_follows (hpass : wpass.Mirrors aligned pass) (site : Site)
    {scope other : Scope} (h : scope.Mirrors aligned other)
    (input : Input) (record : Fields Value) : ∀ chosen : Noted Node,
      Node.EveryNoted (Kind.Retraceable aligned) chosen → Follows aligned
        (pass.walkChosen site other none record chosen)
        (wpass.walkChosen site scope input record chosen)
  | ⟨node, notes⟩ => by
    intro hnode
    rw [Pass.walkChosen, Write.Pass.walkChosen]
    exact Follows.bind (follows_notes notes) fun _ _ => Follows.bind (follows_done _)
      fun schema _ => walk_follows hpass schema.rootSite h input record node hnode
termination_by structural chosen => chosen

theorem walkAll_follows (hpass : wpass.Mirrors aligned pass) (site : Site)
    {scope other : Scope} (h : scope.Mirrors aligned other)
    (inputs : Nat → Input) (index : Nat) (record : Fields Value) : ∀ nodes : List Node,
      Node.EveryAll (Kind.Retraceable aligned) nodes → Follows aligned
        (pass.walkAll site other none record nodes)
        (wpass.walkAll site scope inputs index record nodes)
  | [] => by
    intro _
    rw [Pass.walkAll, Write.Pass.walkAll]
    exact follows_pure _
  | node :: rest => by
    rintro ⟨hnode, hrest⟩
    rw [Pass.walkAll, Write.Pass.walkAll]
    refine Follows.bind (walk_follows hpass site h (inputs index) record node hnode)
      fun kept _ => ?_
    exact Follows.bind (walkAll_follows hpass site h inputs (index + 1) kept.2 rest hrest)
      fun _ _ => follows_pure _
termination_by structural nodes => nodes

end

end Read

open Read Write

/-- **A read pass follows a write pass of the same layout.** If the two are not aligned, the read
pass needs a path of its own that it can read from. -/
theorem Schema.readPlan_follows (schema : Schema) (provider : Provider)
    {writing reading : Options} {aligned : Prop}
    (hpath : aligned → reading.path = writing.path) (huser : aligned → reading.user = writing.user)
    (htarget : aligned ∨ ∃ target, splitTarget reading.path = .ok target)
    (hroot : schema.root.Every (Kind.Retraceable aligned)) :
    Follows aligned (schema.readPlan none reading) (schema.writeScript provider writing) := by
  have hbase : ∀ {dir dir' : String}, (aligned → dir' = dir) →
      (Scope.base dir).Mirrors aligned (Scope.base dir') :=
    fun hdir => ⟨rfl, rfl, fun haligned => by rw [hdir haligned]⟩
  unfold Schema.readPlan Schema.writeScript
  by_cases hfiles : schema.fileCount = 0
  · rw [if_pos hfiles, if_pos hfiles]
    refine .after_silent (Script.silent_of_no_steps rfl) fun target hwritten _ => ?_
    have hwritten : splitTarget writing.path = .ok target := hwritten
    obtain ⟨target', hread, hsame⟩ : ∃ target', splitTarget reading.path = .ok target' ∧
        (aligned → target' = target) := by
      by_cases haligned : aligned
      · exact ⟨target, by rw [hpath haligned, hwritten], fun _ => rfl⟩
      · obtain ⟨target', hread⟩ := htarget.resolve_left haligned
        exact ⟨target', hread, fun h => absurd h haligned⟩
    rw [hread]
    refine Follows.bind (follows_unseen ⟨rfl, rfl⟩ ⟨rfl, rfl⟩) fun _ _ => ?_
    refine inFile_follows ⟨rfl, huser⟩ (hbase fun haligned => by rw [hsame haligned])
      (fun haligned => by rw [hsame haligned]) (fun hnest => ?_) fun inner entered record hinner =>
        walkAll_follows ⟨rfl, huser⟩ _ hinner _ 0 record [schema.root] ⟨hroot, trivial⟩
    rw [hfiles] at hnest
    cases hnest
  · rw [if_neg hfiles, if_neg hfiles]
    exact Follows.bind (walk_follows ⟨rfl, huser⟩ _ (hbase hpath) _ [] schema.root hroot)
      fun _ _ => follows_pure _

end ByteLayout
