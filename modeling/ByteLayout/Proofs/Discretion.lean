import ByteLayout.Proofs.Lockstep
import ByteLayout.Proofs.Parsing

/-!
# Transforms and the branches of a layout

What a transform makes of a value is kept in the record, and a `select` that comes later sees it
there. So a transform can change which branch is read (`Schema.read_swayed`). It changes nothing
else of the parse.

**Alterations.** A pass with a transform and one without keep records of the same names, and an
`Alteration` says which value may stand under a name in the one for which value in the other.
`Node.Rewrites` is the alteration that a transform makes of what a tree keeps: the functions of the
transform are applied to values, to items and within records, in any contexts.

**Discretion.** A tree is discreet under a transform (`Node.Discreet`) if none of its selects can
tell the record from what the transform has made of it so far. It is so under every transform if
its selects are blind, that is, do not look at the record (`Node.discreet_of_blind`).

**Step** (`Pass.walk_lockstep`). The plan of a discreet tree goes in lockstep with its plan without
the transform: from records that agree up to an alteration to records that agree up to that and what
the tree rewrites.

**Theorem (`Schema.read_discreet`).** A read pass of a discreet layout opens the same files,
announces the same fields, consumes the same bytes and fails with the same error or not at all, as
it does without the transform. **Theorem (`Schema.read_blind`).** So does a read pass of a layout
with blind selects, whatever the transform.
-/

namespace ByteLayout

/-! ## Alterations -/

/-- The values that may stand under a name, each with the value in place of which it stands. -/
abbrev Alteration : Type := String → Value → Value → Prop

namespace Alteration

/-- No value is altered. -/
def none : Alteration := fun _ _ _ => False

/-- Either of two alterations. -/
def or (altered rewritten : Alteration) : Alteration :=
  fun key value plain => altered key value plain ∨ rewritten key value plain

/-- Whether a value is the same as another, or stands in its place under some name. -/
def Allows (altered : Alteration) (value plain : Value) : Prop :=
  value = plain ∨ ∃ key, altered key value plain

theorem Allows.mono {altered altered' : Alteration} {value plain : Value}
    (h : altered.Allows value plain)
    (hsub : ∀ key value plain, altered key value plain → altered' key value plain) :
    altered'.Allows value plain :=
  h.imp_right fun ⟨key, hkey⟩ => ⟨key, hsub _ _ _ hkey⟩

end Alteration

/-- Whether two records have the same names in the same order, with the same values under them or
altered ones. -/
def Fields.AgreeUpTo (altered : Alteration) (record plain : Fields Value) : Prop :=
  List.Forall₂ (fun entry entry' =>
    entry.1 = entry'.1 ∧ (entry.2 = entry'.2 ∨ altered entry.1 entry.2 entry'.2)) record plain

namespace Fields.AgreeUpTo

variable {altered altered' : Alteration} {record plain : Fields Value}

theorem mono (h : AgreeUpTo altered record plain)
    (hsub : ∀ key value plain, altered key value plain → altered' key value plain) :
    AgreeUpTo altered' record plain :=
  h.imp fun _ _ hentry => ⟨hentry.1, hentry.2.imp_right (hsub _ _ _)⟩

theorem insert (h : AgreeUpTo altered record plain) (name : String) {value value' : Value}
    (hvalue : value = value' ∨ altered name value value') :
    AgreeUpTo altered (Fields.insert record name value) (Fields.insert plain name value') := by
  induction h with
  | nil => exact .cons ⟨rfl, hvalue⟩ .nil
  | @cons entry entry' rest rest' hentry hrest ih =>
    obtain ⟨key, old⟩ := entry
    obtain ⟨key', old'⟩ := entry'
    obtain ⟨hkey, hold⟩ := hentry
    obtain rfl : key = key' := hkey
    unfold Fields.insert
    by_cases hless : name < key
    · rw [if_pos hless, if_pos hless]
      exact .cons ⟨rfl, hvalue⟩ (.cons ⟨rfl, hold⟩ hrest)
    rw [if_neg hless, if_neg hless]
    by_cases heq : name = key
    · rw [if_pos heq, if_pos heq]
      exact .cons ⟨rfl, hvalue⟩ hrest
    · rw [if_neg heq, if_neg heq]
      exact .cons ⟨rfl, hold⟩ ih

/-- A name under which no value is replaced by another. -/
theorem get?_eq (h : AgreeUpTo altered record plain) {name : String}
    (hname : ∀ value value', altered name value value' → value = value') :
    Fields.get? record name = Fields.get? plain name := by
  induction h with
  | nil => rfl
  | @cons entry entry' rest rest' hentry _ ih =>
    obtain ⟨key, value⟩ := entry
    obtain ⟨key', value'⟩ := entry'
    obtain ⟨hkey, hvalue⟩ := hentry
    obtain rfl : key = key' := hkey
    unfold Fields.get?
    by_cases heq : key = name
    · rw [if_pos heq, if_pos heq]
      exact congrArg some (hvalue.elim id (heq ▸ hname value value'))
    · rw [if_neg heq, if_neg heq, ih]

end Fields.AgreeUpTo

/-- Whether two contexts are the same but for their records, which agree up to an alteration. -/
def FieldContext.AgreeUpTo (altered : Alteration) (context plain : FieldContext) : Prop :=
  Fields.AgreeUpTo altered context.record plain.record ∧
    context = { plain with record := context.record }

namespace Read

/-- What a node leaves behind with and without a transform: the values and the records agree, up to
what the node rewrites, and what was altered in the records before. -/
def KeptAgree (altered rewritten : Alteration) (kept plain : Kept) : Prop :=
  rewritten.Allows kept.1 plain.1 ∧ Fields.AgreeUpTo (altered.or rewritten) kept.2 plain.2

/-- What nodes one after the other leave behind with and without a transform. -/
def WalkedAgree (altered rewritten : Alteration) (walked plain : List Value × Fields Value) :
    Prop :=
  List.Forall₂ rewritten.Allows walked.1 plain.1 ∧
    Fields.AgreeUpTo (altered.or rewritten) walked.2 plain.2

end Read

open Read

/-! ## What a transform rewrites -/

namespace Transform

/-- Whether a transform makes a value of another, in some context. -/
def Gives (transform : Option Transform) (value result : Value) : Prop :=
  match transform.bind function? with
  | none => result = value
  | some f => ∃ context, result = (f value context).value

/-- The transform of a field, if it has a name. -/
def ofField (name : Option String) (transform : Option Transform) : Option Transform :=
  name.bind fun name => transform.bind (·.field? name)

/-- The transform of the fields of a sequence's items. -/
def ofItems (name : Option String) (transform : Option Transform) : Option Transform :=
  (ofField name transform).filter fun transform => transform.function?.isNone

end Transform

namespace Alteration

/-- A field that a transform rewrites as a whole. -/
def ofField (name : Option String) (transform : Option Transform) : Alteration :=
  fun key value plain =>
    name = some key ∧ Transform.Gives (Transform.ofField name transform) plain value

/-- A list of items, each of which a transform rewrites as a whole or, below it, in its fields. -/
def ofItems (within : Alteration) (elements : List Node) (name : Option String)
    (transform : Option Transform) : Alteration :=
  fun key value plain => name = some key ∧ ∃ items items', value = .list items ∧
    plain = .list items' ∧ List.Forall₂ (fun item item' => ∃ walked walked',
      WalkedAgree none within walked walked' ∧
      item' = Node.itemValue elements walked'.2 walked'.1 ∧
      Transform.Gives (Transform.ofField name transform)
        (Node.itemValue elements walked.2 walked.1) item) items items'

/-- The record of a file, which is rewritten within. -/
def ofRecord (within : Alteration) (path : String) : Alteration :=
  fun key value plain => key = path ∧ ∃ record record', value = .record record ∧
    plain = .record record' ∧ Fields.AgreeUpTo within record record'

end Alteration

namespace Node

mutual

/-- What a transform may make of that which a tree keeps in the record around it. -/
def Rewrites (nest : Bool) (transform : Option Transform) : Node → Alteration
  | .mk kind name _ payload =>
    match kind with
    | .order _ children => RewritesAll nest transform children
    | .group children => RewritesAll nest transform children
    | .directory path children => RewritesAll nest (transform.bind (·.field? path)) children
    | .file path children =>
      let within := RewritesAll nest (transform.bind (·.field? path)) children
      if nest then .ofRecord within path else within
    | .select choose =>
      fun key value plain =>
        ∃ context, RewritesNoted nest transform (choose context) key value plain
    | .text _ => .none
    | .custom _ => .ofField name transform
    | .float _ => .ofField name transform
    | .int _ =>
      match payload with
      | .sequence elements =>
        .ofItems (RewritesAll nest (Transform.ofItems name transform) elements) elements name
          transform
      | .none => .ofField name transform
      | .text _ => .ofField name transform
termination_by structural node => node

def RewritesNoted (nest : Bool) (transform : Option Transform) : Noted Node → Alteration
  | ⟨node, _⟩ => Rewrites nest transform node
termination_by structural chosen => chosen

def RewritesAll (nest : Bool) (transform : Option Transform) : List Node → Alteration
  | [] => .none
  | node :: rest => .or (Rewrites nest transform node) (RewritesAll nest transform rest)
termination_by structural nodes => nodes

end

mutual

/-- Whether no select of a tree can tell what a transform has made of the record from what it would
be without: the record is altered before the tree, and by the tree. The items of a sequence have
records of their own, and so have files if there are several. -/
def Discreet (nest : Bool) (altered : Alteration) (transform : Option Transform) : Node → Prop
  | .mk kind name _ payload =>
    match kind with
    | .order _ children => DiscreetAll nest altered transform children
    | .group children => DiscreetAll nest altered transform children
    | .directory path children =>
      DiscreetAll nest altered (transform.bind (·.field? path)) children
    | .file path children =>
      DiscreetAll nest (if nest then .none else altered) (transform.bind (·.field? path)) children
    | .select choose =>
      (∀ context plain, FieldContext.AgreeUpTo altered context plain →
        (choose context).value = (choose plain).value) ∧
      ∀ context, DiscreetNoted nest altered transform (choose context)
    | .int _ =>
      match payload with
      | .sequence elements =>
        DiscreetAll nest .none (Transform.ofItems name transform) elements
      | .none => True
      | .text _ => True
    | .custom _ => True
    | .text _ => True
    | .float _ => True
termination_by structural node => node

def DiscreetNoted (nest : Bool) (altered : Alteration) (transform : Option Transform) :
    Noted Node → Prop
  | ⟨node, _⟩ => Discreet nest altered transform node
termination_by structural chosen => chosen

def DiscreetAll (nest : Bool) (altered : Alteration) (transform : Option Transform) :
    List Node → Prop
  | [] => True
  | node :: rest =>
    Discreet nest altered transform node ∧
      DiscreetAll nest (altered.or (Rewrites nest transform node)) transform rest
termination_by structural nodes => nodes

end

end Node

/-! ## Selects that do not look at the record -/

/-- Whether a kind is no select that depends on the record. -/
def Kind.Blind : Kind → Prop
  | .select choose => ∀ context record,
    (choose { context with record }).value = (choose context).value
  | _ => True

namespace Node

mutual

/-- A tree whose selects do not look at the record is discreet under every transform. -/
theorem discreet_of_blind {nest : Bool} {altered : Alteration} {transform : Option Transform} :
    ∀ node : Node, node.Every Kind.Blind → node.Discreet nest altered transform
  | .mk kind name default payload => by
    rintro ⟨hkind, hpayload, hbelow⟩
    cases kind with
    | order order children => exact discreetAll_of_blind children hbelow
    | group children => exact discreetAll_of_blind children hbelow
    | directory path children => exact discreetAll_of_blind children hbelow
    | file path children => exact discreetAll_of_blind children hbelow
    | select choose =>
      refine ⟨fun context plain hagree => ?_, fun context =>
        discreetNoted_of_blind (choose context) (hbelow context)⟩
      rw [hagree.2]
      exact hkind plain context.record
    | int kind =>
      cases payload with
      | sequence elements => exact discreetAll_of_blind elements hpayload
      | none => exact trivial
      | text text => exact trivial
    | custom codec => exact trivial
    | text encoding => exact trivial
    | float kind => exact trivial
termination_by structural node => node

theorem discreetNoted_of_blind {nest : Bool} {altered : Alteration}
    {transform : Option Transform} : ∀ chosen : Noted Node, EveryNoted Kind.Blind chosen →
      DiscreetNoted nest altered transform chosen
  | ⟨node, _⟩ => fun hnode => discreet_of_blind node hnode
termination_by structural chosen => chosen

theorem discreetAll_of_blind {nest : Bool} {altered : Alteration}
    {transform : Option Transform} : ∀ nodes : List Node, EveryAll Kind.Blind nodes →
      DiscreetAll nest altered transform nodes
  | [], _ => trivial
  | node :: rest, ⟨hnode, hrest⟩ =>
    ⟨discreet_of_blind node hnode, discreetAll_of_blind rest hrest⟩
termination_by structural nodes => nodes

end

end Node

/-! ## Records that agree -/

namespace Read

variable {altered rewritten : Alteration} {record plain : Fields Value}

theorem KeptAgree.mono {rewritten' : Alteration} {kept kept' : Kept}
    (h : KeptAgree altered rewritten kept kept')
    (hsub : ∀ key value plain, rewritten key value plain → rewritten' key value plain) :
    KeptAgree altered rewritten' kept kept' :=
  ⟨h.1.mono hsub, h.2.mono fun _ _ _ => Or.imp_right (hsub _ _ _)⟩

/-- A value that is kept under a name, if there is one. -/
theorem keep_agree (hrecord : Fields.AgreeUpTo altered record plain) (name : Option String)
    {value value' : Value} (hunnamed : name = none → value = value')
    (hnamed : ∀ key, name = some key → rewritten key value value') :
    KeptAgree altered rewritten (keep name record value) (keep name plain value') := by
  have hbefore : Fields.AgreeUpTo (altered.or rewritten) record plain :=
    hrecord.mono fun _ _ _ => .inl
  cases name with
  | none => exact ⟨.inl (hunnamed rfl), hbefore⟩
  | some name =>
    have hvalue := hnamed name rfl
    exact ⟨.inr ⟨name, hvalue⟩, hbefore.insert name (.inr (.inr hvalue))⟩

namespace Pass

variable {pass : Pass} {name : Option String} {scope : Scope} {transform : Option Transform}

/-! ## Fields -/

/-- The function of a transform is an aside. -/
theorem transformed_lockstep (transform : Option Transform) (record : Fields Value)
    (value : Value) :
    Lockstep (fun result result' => result' = value ∧ Transform.Gives transform value result)
      (pass.transformed transform scope record value) (Pure.pure value) := by
  unfold transformed Transform.Gives
  cases transform.bind Transform.function? with
  | none => exact .pure ⟨rfl, rfl⟩
  | some f => exact .aside_called _ _ ⟨rfl, _, rfl⟩

theorem settle_lockstep (hrecord : Fields.AgreeUpTo altered record plain) (value : Value) :
    Lockstep (KeptAgree altered (.ofField name transform))
      (pass.settle name scope transform record value)
      (pass.settle name scope none plain value) := by
  cases name with
  | none => exact .pure (keep_agree hrecord none (fun _ => rfl) nofun)
  | some name =>
    refine (transformed_lockstep _ record value).bind fun result result' hresult => ?_
    obtain ⟨rfl, hgives⟩ := hresult
    exact .pure (keep_agree hrecord (some name) nofun fun key hkey => ⟨hkey, hgives⟩)

theorem int_lockstep (hrecord : Fields.AgreeUpTo altered record plain) (kind : IntKind) :
    Lockstep (KeptAgree altered (.ofField name transform))
      (pass.int kind name scope transform record) (pass.int kind name scope none plain) :=
  .same _ fun _ => settle_lockstep hrecord _

theorem float_lockstep (hrecord : Fields.AgreeUpTo altered record plain) (kind : FloatKind) :
    Lockstep (KeptAgree altered (.ofField name transform))
      (pass.float kind name scope transform record) (pass.float kind name scope none plain) :=
  .same _ fun _ => .same _ fun _ => .same _ fun _ => settle_lockstep hrecord _

theorem string_lockstep (hrecord : Fields.AgreeUpTo altered record plain) (kind : IntKind)
    (text : Node) :
    Lockstep (KeptAgree altered (.ofField name transform))
      (pass.string kind text name scope transform record)
      (pass.string kind text name scope none plain) := by
  refine .same _ fun _ => .same _ fun _ => ?_
  split
  · exact .same _ fun _ => settle_lockstep hrecord _
  · exact .error _

/-- The items of a sequence go in lockstep if their elements do. -/
theorem sequence_lockstep (hrecord : Fields.AgreeUpTo altered record plain) (kind : IntKind)
    (elements : List Node) {within : Alteration}
    {content : Scope → Option Transform → Plan (List Value × Fields Value)}
    (hcontent : ∀ scope, Lockstep (WalkedAgree .none within)
      (content scope (Transform.ofItems name transform)) (content scope none)) :
    Lockstep (KeptAgree altered (.ofItems within elements name transform))
      (pass.sequence kind elements name scope transform record content)
      (pass.sequence kind elements name scope none plain content) := by
  refine .same _ fun n => .same _ fun count => ?_
  cases name with
  | none =>
    -- the items of a sequence without a name are read as if there were no transform
    refine (Lockstep.refl _).bind fun items items' hitems => .pure ?_
    exact keep_agree hrecord none (fun _ => congrArg Value.list hitems) nofun
  | some name =>
    refine (Lockstep.collect (fun index => ?_) count 0 .nil).bind fun items items' hitems =>
      .pure (keep_agree hrecord (some name) nofun fun key hkey =>
        ⟨hkey, items, items', rfl, rfl, hitems⟩)
    refine (hcontent _).bind fun walked walked' hwalked => ?_
    refine (transformed_lockstep _ record _).bind fun item item' hitem => .same _ fun _ => ?_
    obtain ⟨rfl, hgives⟩ := hitem
    exact .pure ⟨walked, walked', hwalked, rfl, hgives⟩

theorem arrange_lockstep {walked walked' : Plan (List Value × Fields Value)}
    (h : Lockstep (WalkedAgree altered rewritten) walked walked') :
    Lockstep (KeptAgree altered rewritten) (arrange walked) (arrange walked') :=
  h.bind fun _ _ hwalked => .pure ⟨.inl rfl, hwalked.2⟩

/-- **A file goes in lockstep** if its content does, in a record of its own if there are several. -/
theorem inFile_lockstep (hrecord : Fields.AgreeUpTo altered record plain) (relative : String)
    {within : Alteration}
    {content content' : Scope → Fields Value → Plan (List Value × Fields Value)}
    (hcontent : ∀ scope {record plain},
      Fields.AgreeUpTo (if pass.nest then .none else altered) record plain →
        Lockstep (WalkedAgree (if pass.nest then .none else altered) within)
          (content scope record) (content' scope plain)) :
    Lockstep (Fields.AgreeUpTo
        (altered.or (if pass.nest then .ofRecord within relative else within)))
      (pass.inFile relative scope record content) (pass.inFile relative scope plain content') := by
  refine .same _ fun inner => .same _ fun _ => .same _ fun _ => ?_
  cases hnest : pass.nest with
  | true =>
    rw [hnest] at hcontent
    have hempty : Fields.AgreeUpTo .none [] [] := .nil
    refine (hcontent inner hempty).bind fun walked walked' hwalked => .same _ fun _ => .pure ?_
    have hread : Fields.AgreeUpTo within walked.2 walked'.2 :=
      hwalked.2.mono fun _ _ _ => Or.rec False.elim id
    exact (hrecord.mono fun _ _ _ => .inl).insert relative
      (.inr (.inr ⟨rfl, _, _, rfl, rfl, hread⟩))
  | false =>
    rw [hnest] at hcontent
    exact (hcontent inner hrecord).bind fun _ _ hwalked => .same _ fun _ => .pure hwalked.2

/-! ## Trees -/

mutual

/-- **The plan of a discreet tree goes in lockstep with its plan without the transform.** -/
theorem walk_lockstep (pass : Pass) (site : Site) (scope : Scope) (transform : Option Transform)
    {altered : Alteration} {record plain : Fields Value}
    (hrecord : Fields.AgreeUpTo altered record plain) : ∀ node : Node, node.Every Kind.BuiltIn →
      node.Discreet pass.nest altered transform →
      Lockstep (KeptAgree altered (node.Rewrites pass.nest transform))
        (pass.walk site scope transform record node) (pass.walk site scope none plain node)
  | .mk kind name default payload => by
    rintro ⟨hkind, hpayload, hbelow⟩ hdiscreet
    cases kind with
    | order order children =>
      rw [walk, walk]
      exact arrange_lockstep
        (walkAll_lockstep pass _ _ transform hrecord children hbelow hdiscreet)
    | group children =>
      rw [walk, walk]
      exact arrange_lockstep
        (walkAll_lockstep pass _ _ transform hrecord children hbelow hdiscreet)
    | directory path children =>
      rw [walk, walk]
      exact arrange_lockstep (walkAll_lockstep pass _ _ _ hrecord children hbelow hdiscreet)
    | file path children =>
      rw [walk, walk]
      refine (inFile_lockstep hrecord path fun inner {_ _} hinner => ?_).bind
        fun _ _ hread => .pure ⟨.inl rfl, hread⟩
      exact walkAll_lockstep pass _ inner _ hinner children hbelow hdiscreet
    | select choose =>
      rw [walk, walk]
      obtain ⟨hsame, hchosen⟩ := hdiscreet
      -- the callback sees another record, so its call and its notes differ, but not its result
      refine .aside_event ⟨rfl, rfl⟩ (.asideOther_event ⟨rfl, rfl⟩ ?_)
      let context := scope.context pass.user record
      have hvalue := hsame context (scope.context pass.user plain) ⟨hrecord, rfl⟩
      exact (walkChosen_lockstep pass _ scope transform hrecord (choose context) (hbelow context)
        (hchosen context) hvalue).mono fun _ _ hkept =>
          hkept.mono fun _ _ _ hrewrites => ⟨context, hrewrites⟩
    | custom codec => exact absurd hkind id
    | text encoding =>
      rw [walk, walk]
      exact .error _
    | float kind =>
      rw [walk, walk]
      exact float_lockstep hrecord kind
    | int kind =>
      cases payload with
      | none =>
        rw [walk, walk]
        exact int_lockstep hrecord kind
      | text text =>
        rw [walk, walk]
        exact string_lockstep hrecord kind text
      | sequence elements =>
        rw [walk, walk]
        exact sequence_lockstep hrecord kind elements fun inner =>
          walkAll_lockstep pass _ inner _ .nil elements hpayload hdiscreet
termination_by structural node => node

theorem walkChosen_lockstep (pass : Pass) (site : Site) (scope : Scope)
    (transform : Option Transform) {altered : Alteration} {record plain : Fields Value}
    (hrecord : Fields.AgreeUpTo altered record plain) : ∀ chosen : Noted Node,
      Node.EveryNoted Kind.BuiltIn chosen → Node.DiscreetNoted pass.nest altered transform chosen →
      ∀ {other : Noted Node}, chosen.value = other.value →
      Lockstep (KeptAgree altered (Node.RewritesNoted pass.nest transform chosen))
        (pass.walkChosen site scope transform record chosen)
        (pass.walkChosen site scope none plain other)
  | ⟨node, notes⟩ => by
    rintro hbuiltIn hdiscreet ⟨_, notes'⟩ rfl
    rw [walkChosen, walkChosen]
    refine .aside_notes (.asideOther_notes (.same _ fun schema => ?_) notes') notes
    exact walk_lockstep pass schema.rootSite scope transform hrecord node hbuiltIn hdiscreet
termination_by structural chosen => chosen

theorem walkAll_lockstep (pass : Pass) (site : Site) (scope : Scope)
    (transform : Option Transform) {altered : Alteration} {record plain : Fields Value}
    (hrecord : Fields.AgreeUpTo altered record plain) : ∀ nodes : List Node,
      Node.EveryAll Kind.BuiltIn nodes → Node.DiscreetAll pass.nest altered transform nodes →
      Lockstep (WalkedAgree altered (Node.RewritesAll pass.nest transform nodes))
        (pass.walkAll site scope transform record nodes)
        (pass.walkAll site scope none plain nodes)
  | [] => by
    intro _ _
    rw [walkAll, walkAll]
    exact .pure ⟨.nil, hrecord.mono fun _ _ _ => .inl⟩
  | node :: rest => by
    rintro ⟨hnode, hrest⟩ ⟨hdiscreet, hdiscreetRest⟩
    rw [walkAll, walkAll]
    refine (walk_lockstep pass site scope transform hrecord node hnode hdiscreet).bind
      fun kept kept' hkept => ?_
    -- what the first node rewrites counts as altered for the others
    refine (walkAll_lockstep pass site scope transform hkept.2 rest hrest hdiscreetRest).bind
      fun walked walked' hwalked => .pure ⟨.cons ?_ ?_, ?_⟩
    · exact hkept.1.mono fun _ _ _ => .inl
    · exact hwalked.1.imp fun _ _ hvalue => hvalue.mono fun _ _ _ => .inr
    · exact hwalked.2.mono fun _ _ _ => or_assoc.mp
termination_by structural nodes => nodes

end

end Pass

end Read

/-- The plan of a discreet layout goes in lockstep with its plan without the transform. -/
theorem Schema.readPlan_lockstep (schema : Schema) (hbuiltIn : schema.root.Every Kind.BuiltIn)
    (transform : Transform)
    (hdiscreet : schema.root.Discreet (1 < schema.fileCount) .none (some transform))
    (options : Options) :
    Lockstep (fun _ _ => True) (schema.readPlan (some transform) options)
      (schema.readPlan none options) := by
  let pass : Pass := { user := options.user, nest := 1 < schema.fileCount }
  unfold readPlan
  dsimp only
  split
  · refine .same _ fun target => .same _ fun _ => ?_
    have hroot : Node.DiscreetAll pass.nest (if pass.nest then .none else .none) transform
        [schema.root] := by
      rw [ite_self]
      exact ⟨hdiscreet, trivial⟩
    exact (Pass.inFile_lockstep .nil target.2 fun inner {_ _} hinner =>
      Pass.walkAll_lockstep pass _ inner _ hinner [schema.root] ⟨hbuiltIn, trivial⟩ hroot).mono
        fun _ _ _ => trivial
  · exact (Pass.walk_lockstep pass _ _ _ .nil schema.root hbuiltIn hdiscreet).bind
      fun _ _ _ => .pure trivial

/-- **A transform of which no select can tell changes nothing of the parse.** -/
theorem Schema.read_discreet (schema : Schema) (hbuiltIn : schema.root.Every Kind.BuiltIn)
    (transform : Transform)
    (hdiscreet : schema.root.Discreet (1 < schema.fileCount) .none (some transform))
    (options : Options) (opener : SourceOpener) :
    (schema.read (some transform) options opener).Alike (schema.read none options opener) :=
  (schema.readPlan_lockstep hbuiltIn transform hdiscreet options).answer _ _

/-- **No transform changes anything of the parse** if no select looks at the record. -/
theorem Schema.read_blind (schema : Schema) (hbuiltIn : schema.root.Every Kind.BuiltIn)
    (hblind : schema.root.Every Kind.Blind) (transform : Transform) (options : Options)
    (opener : SourceOpener) :
    (schema.read (some transform) options opener).Alike (schema.read none options opener) :=
  have hdiscreet := Node.discreet_of_blind schema.root hblind
  (schema.readPlan_lockstep hbuiltIn transform hdiscreet options).answer _ _

/-- Puts the same value under a name, whatever stood there. -/
def masking (name : String) : Transform := .fields [(name, .map fun _ _ => ⟨.int 7, []⟩)]

/-- What decides the choice is left alone. -/
theorem choice_discreet :
    choice.root.Discreet (1 < choice.fileCount) .none (some (masking "value")) := by
  have hselect : ∀ context plain : FieldContext,
      context.AgreeUpTo (.or .none ((byteField "tag").Rewrites false (some (masking "value"))))
        plain → Fields.get? context.record "tag" = Fields.get? plain.record "tag" := by
    rintro context plain ⟨hrecord, -⟩
    refine hrecord.get?_eq fun value value' haltered => ?_
    obtain hnone | ⟨-, hgives⟩ := haltered
    · exact absurd hnone id
    · exact hgives
  refine ⟨trivial, ⟨fun context plain hagree => ?_, fun context => ?_⟩, trivial⟩
  · dsimp only
    rw [hselect context plain hagree]
  · dsimp only
    split <;> exact trivial

theorem Schema.read_discreet_choice :
    choice.root.Every Kind.BuiltIn ∧
      choice.root.Discreet (1 < choice.fileCount) .none (some (masking "value")) ∧
      ∀ options opener, (choice.read (some (masking "value")) options opener).Alike
        (choice.read none options opener) :=
  ⟨choice_builtIn, choice_discreet,
    Schema.read_discreet choice choice_builtIn (masking "value") choice_discreet⟩

/-- **A transform can change which branch is read.** The tag of these bytes says that a byte
follows, and what stands in its place says that a text does, which is longer than the input. -/
theorem Schema.read_swayed :
    choice.root.Every Kind.BuiltIn ∧
      ¬(choice.read (some (masking "tag")) taggedOptions fun _ _ => .ok (.ofBytes [1, 5])).Alike
        (choice.read none taggedOptions fun _ _ => .ok (.ofBytes [1, 5])) := by
  refine ⟨choice_builtIn, fun halike => ?_⟩
  have hplain : (choice.read none taggedOptions fun _ _ => .ok (.ofBytes [1, 5])).result =
      .ok [("tag", .int 1), ("value", .int 5)] := by
    obtain ⟨results, hparse⟩ : ∃ results,
        (choice.contentPlan none taggedOptions.user ("", "out")).parse [1, 5] =
          .ok ((results, [("tag", .int 1), ("value", .int 5)]), []) := ⟨_, rfl⟩
    exact Schema.read_of_parse rfl choice_builtIn splitTarget_out (gives_ofBytes _).brings hparse
  have hswayed : ∃ error, (choice.read (some (masking "tag")) taggedOptions fun _ _ =>
      .ok (.ofBytes [1, 5])).result = .error error := by
    have hread := Schema.read_parse rfl choice_builtIn (some (masking "tag")) taggedOptions
      splitTarget_out (gives_ofBytes [1, 5]).brings
    have hparse : (choice.contentPlan (some (masking "tag")) taggedOptions.user ("", "out")).parse
        [1, 5] = .error none := rfl
    rw [hparse] at hread
    exact hread.imp fun _ h => h.1
  obtain ⟨error, herror⟩ := hswayed
  have hfails := (halike.error error).mpr herror
  rw [hplain] at hfails
  cases hfails

end ByteLayout
