import ByteLayout.Proofs.Faults
import ByteLayout.Proofs.Unfolding

/-!
# What plans do not fail with

A plan is **regular** with respect to some bad errors if it ends in none of them unless it was given
one, and if each field that it announces as a number is read at once and in just its width
(`Plan.Regular`). Only plans that call nothing but what they are allowed to call have to be so.

**Theorem (`Pass.walk_regular`).** Where all bad errors are internal, and no codec makes one of them
up, the plan of an accepted tree is regular.
-/

namespace ByteLayout

namespace Read

/-- Whether a question announces a number. -/
def Question.AnnouncesNumber : Question → Prop
  | .field _ label => ∃ width, Numeric label width
  | _ => False

/-- Whether what a question calls, if it records a callback, is among some calls. -/
def Question.Calls (allowed : Call → Prop) : Question → Prop
  | .record (.call call) => allowed call
  | _ => True

namespace Plan

variable {bad : Error → Prop} {allowed : Call → Prop} {α β : Type}

/-- Whether a plan that calls nothing but what is among some calls ends in no bad error that it was
not given, and asks for the bytes of a number, in just its width, directly after it has announced
it. -/
inductive Regular (bad : Error → Prop) (allowed : Call → Prop) : Plan α → Prop
  | done {result : Except Error α} :
    (∀ error, result = .error error → ¬bad error) → Regular bad allowed (.done result)
  | number {path label : String} {width : Nat} {next : Except Error (List UInt8) → Plan α} :
    Numeric label width →
    (∀ reply, (∀ error, reply = .error error → ¬bad error) → Regular bad allowed (next reply)) →
    Regular bad allowed (.ask (.field path label) fun _ => .ask (.fetch width) next)
  | other {question : Question} {next : question.Reply → Plan α} : ¬question.AnnouncesNumber →
    (∀ reply, question.Calls allowed → (∀ error, question.error? reply = some error → ¬bad error) →
      Regular bad allowed (next reply)) →
    Regular bad allowed (.ask question next)

theorem Regular.bind {plan : Plan α} {f : α → Plan β} (h : Regular bad allowed plan)
    (hf : ∀ a, Regular bad allowed (f a)) : Regular bad allowed (plan >>= f) := by
  induction h with
  | @done result hresult =>
    cases result with
    | ok a => exact hf a
    | error error => exact .done fun other hother => hresult other (by cases hother; rfl)
  | number hnumeric _ ih => exact .number hnumeric fun reply hreply => ih reply hreply
  | other hquestion _ ih =>
    exact .other hquestion fun reply hcalls hreply => ih reply hcalls hreply

theorem regular_ofExcept {result : Except Error α}
    (h : ∀ error, result = .error error → ¬bad error) :
    Regular bad allowed (.ofExcept result) :=
  .done h

theorem regular_pure (a : α) : Regular bad allowed (Pure.pure a : Plan α) := .done nofun

theorem regular_event (event : Event) : Regular bad allowed (.event event) :=
  .other id fun _ _ _ => regular_pure ()

/-- Something that comes after a callback may count on it being one of those calls. -/
theorem regular_calling {call : Call} {f : Unit → Plan α}
    (h : allowed call → Regular bad allowed (f ())) :
    Regular bad allowed (.event (.call call) >>= f) :=
  .other id fun _ hcalls _ => h hcalls

theorem regular_notes (list : List Note) : Regular bad allowed (.notes list) := by
  induction list with
  | nil => exact regular_pure ()
  | cons note rest ih => exact .other id fun _ _ _ => ih

theorem regular_called (call : Call) (answer : Noted α) :
    Regular bad allowed (.called call answer) :=
  (regular_event _).bind fun _ => (regular_notes _).bind fun _ => regular_pure _

theorem regular_read (count : Nat) : Regular bad allowed (.read count) :=
  .other id fun reply _ hreply => .done fun error h => hreply error (by rw [h]; rfl)

theorem regular_openFile (path : String) : Regular bad allowed (.openFile path) :=
  .other id fun reply _ hreply => .done fun error h => hreply error (by rw [h]; rfl)

theorem regular_closeFile (path : String) : Regular bad allowed (.closeFile path) :=
  .other id fun _ _ _ => regular_pure ()

/-- The bytes of a number that was announced. -/
theorem regular_number {label : String} {width : Nat} (h : Numeric label width) (path : String)
    {f : List UInt8 → Plan α} (hf : ∀ bytes, Regular bad allowed (f bytes)) :
    Regular bad allowed (do .field path label; let bytes ← .fetch width; f bytes) := by
  refine .number h fun reply hreply => ?_
  cases reply with
  | ok bytes => exact hf bytes
  | error error => exact .done fun other hother => hreply other (by cases hother; rfl)

theorem Regular.collect {item : Nat → Plan α} (h : ∀ index, Regular bad allowed (item index)) :
    ∀ (remaining index : Nat) (results : List α),
      Regular bad allowed (Dialogue.collect item remaining index results)
  | 0, _, _ => regular_pure _
  | remaining + 1, index, results =>
    (h index).bind fun a => Regular.collect h remaining (index + 1) (a :: results)

/-- **A decoder that makes up no bad error is regular.** -/
theorem regular_decode (hbad : ∀ error, bad error → error.Internal) (path : String) :
    ∀ {decoding : Decoding α}, (∀ error, bad error → ¬decoding.EndsIn error) →
      Regular bad allowed (decode path decoding)
  | .done (.ok a), _ => regular_pure a
  | .done (.error (.library error)), h => by
    refine .done fun other hother hmade => ?_
    cases hother
    exact h error hmade .fail
  | .done (.error (.foreign text)), _ => by
    refine .done fun other hother hmade => ?_
    cases hother
    exact hbad _ hmade
  | .ask question next, h => by
    have hnext : ∀ reply, (∀ error, question.error? reply = some error → ¬bad error) →
        Regular bad allowed (decode path (next reply)) := fun reply hreply =>
      regular_decode hbad path fun error hmade hends =>
        h error hmade (.ask (fun hsame => hreply error hsame hmade) hends)
    cases question <;> exact .other id fun reply _ => hnext reply

end Plan

namespace Pass

open Plan

variable {bad : Error → Prop} {allowed : Call → Prop}
  (hbad : ∀ error, bad error → error.Internal) (pass : Pass)
  (name : Option String) (scope : Scope) (transform : Option Transform) (record : Fields Value)

/-! ## Fields -/

theorem transformed_regular (value : Value) :
    Regular bad allowed (pass.transformed transform scope record value) := by
  unfold transformed
  split
  · exact regular_pure _
  · exact regular_called _ _

theorem settle_regular (value : Value) :
    Regular bad allowed (pass.settle name scope transform record value) := by
  cases name with
  | none => exact regular_pure _
  | some name => exact (pass.transformed_regular scope _ record value).bind fun _ => regular_pure _

include hbad

theorem regular_fieldOrder (kind : String) :
    Regular bad allowed (.ofExcept (scope.fieldOrder kind)) :=
  regular_ofExcept fun error h herror => Scope.not_internal_of_fieldOrder h (hbad error herror)

theorem integer_regular (kind : IntKind) : Regular bad allowed (integer kind scope) :=
  (regular_fieldOrder hbad scope kind.label).bind fun _ =>
    regular_number kind.numeric _ fun _ => regular_pure _

theorem int_regular (kind : IntKind) :
    Regular bad allowed (pass.int kind name scope transform record) :=
  (integer_regular hbad scope kind).bind fun _ => pass.settle_regular name scope transform record _

theorem float_regular (kind : FloatKind) :
    Regular bad allowed (pass.float kind name scope transform record) :=
  (regular_fieldOrder hbad scope kind.label).bind fun _ =>
    regular_number kind.numeric _ fun _ => pass.settle_regular name scope transform record _

theorem countOf_regular (n : Int) : Regular bad allowed (.ofExcept (countOf scope n)) := by
  refine regular_ofExcept fun error h herror => ?_
  unfold countOf at h
  split at h
  · cases h
    exact hbad _ herror
  · cases h

theorem string_regular (kind : IntKind) {text : Node} (htext : text.kind.isText = true) :
    Regular bad allowed (pass.string kind text name scope transform record) := by
  refine (integer_regular hbad scope kind).bind fun n => ?_
  refine (countOf_regular hbad scope n).bind fun length => ?_
  cases hkind : text.kind with
  | text encoding =>
    exact (regular_read _).bind fun _ => pass.settle_regular name scope transform record _
  | _ =>
    rw [hkind] at htext
    cases htext

theorem custom_regular {codec : Codec}
    (hcodec : ∀ error, bad error → ¬(Kind.custom codec).MakesUp allowed error) :
    Regular bad allowed
      (pass.custom codec (Kind.custom codec).label name scope transform record) := by
  refine (regular_fieldOrder hbad scope _).bind fun order => ?_
  have hfield : Regular bad allowed (.field scope.trail (Kind.custom codec).label) :=
    .other (fun ⟨width, h⟩ => not_numeric_custom width h) fun _ _ _ => regular_pure ()
  -- only here a bad error may come in, and then it was made up in this very call
  refine hfield.bind fun _ => regular_calling fun hallowed => ?_
  refine (regular_decode hbad _ fun error hmade hends => ?_).bind
    fun _ => pass.settle_regular name scope transform record _
  exact hcodec error hmade (.inr ⟨_, hallowed, hends⟩)

/-! ## Sequences and files -/

theorem sequence_regular (kind : IntKind) (elements : List Node)
    {content : Scope → Option Transform → Plan (List Value × Fields Value)}
    (hcontent : ∀ inner transform, Regular bad allowed (content inner transform)) :
    Regular bad allowed (pass.sequence kind elements name scope transform record content) := by
  refine (integer_regular hbad scope kind).bind fun n => ?_
  refine (countOf_regular hbad scope n).bind fun count => ?_
  refine (Regular.collect (fun index => ?_) count 0 []).bind fun _ => regular_pure _
  exact (hcontent _ _).bind fun _ => (pass.transformed_regular _ _ record _).bind
    fun _ => (regular_event _).bind fun _ => regular_pure _

theorem inFile_regular (relative : String)
    {content : Scope → Fields Value → Plan (List Value × Fields Value)}
    (hcontent : ∀ inner record, Regular bad allowed (content inner record)) :
    Regular bad allowed (pass.inFile relative scope record content) := by
  have henter : Regular bad allowed (.ofExcept (scope.enterFile relative)) :=
    regular_ofExcept fun error h herror => Scope.not_internal_of_enterFile h (hbad error herror)
  exact henter.bind fun _ => (regular_event _).bind fun _ => (regular_openFile _).bind
    fun _ => (hcontent _ _).bind fun _ => (regular_closeFile _).bind fun _ => regular_pure _

omit hbad in
theorem arrange_regular {walked : Plan (List Value × Fields Value)}
    (h : Regular bad allowed walked) :
    Regular bad allowed (arrange walked) :=
  h.bind fun _ => regular_pure _

/-! ## Trees -/

/-- **A node adds nothing irregular** to its parts, if it is accepted somewhere but in a payload. -/
theorem layer_regular {node : Node} {placement : Placement} (hnode : node.Admitted placement)
    (hplacement : placement ≠ .payload)
    (hkind : ∀ error, bad error → ¬node.kind.MakesUp allowed error)
    {children elements : Plans} {chosen : Noted Node → Plan Kept}
    (hchildren : ∀ scope transform record, Regular bad allowed (children scope transform record))
    (helements : ∀ nodes, node.payload = .sequence nodes →
      ∀ scope transform record, Regular bad allowed (elements scope transform record))
    (hchosen : ∀ choose, node.kind = .select choose →
      ∀ context, Regular bad allowed (chosen (choose context))) :
    Regular bad allowed
      (pass.layer node node.payload children elements chosen scope transform record) := by
  have htext := hnode.not_isText hplacement
  unfold layer
  cases hcases : node.kind with
  | order order below => exact arrange_regular (hchildren _ _ _)
  | group below => exact arrange_regular (hchildren _ _ _)
  | directory path below => exact arrange_regular (hchildren _ _ _)
  | file path below =>
    exact (pass.inFile_regular hbad scope record path fun inner record => hchildren _ _ _).bind
      fun _ => regular_pure _
  | select choose => exact (regular_event _).bind fun _ => hchosen choose hcases _
  | custom codec =>
    rw [hcases] at hkind
    exact pass.custom_regular hbad _ _ transform record hkind
  | text encoding =>
    rw [hcases] at htext
    cases htext
  | float kind => exact pass.float_regular hbad _ _ transform record kind
  | int kind =>
    cases hpayload : node.payload with
    | none => exact pass.int_regular hbad _ _ transform record kind
    | text text =>
      exact pass.string_regular hbad _ _ transform record kind (hnode.isText_of_text hpayload)
    | sequence nodes =>
      exact pass.sequence_regular hbad _ _ transform record kind nodes fun inner transform =>
        helements nodes hpayload _ _ _

omit hbad in
theorem walkAll_regular {nodes : List Node} {site : Site}
    (h : ∀ node ∈ nodes, ∀ scope transform record,
      Regular bad allowed (pass.walk site scope transform record node)) (scope : Scope)
    (transform : Option Transform) (record : Fields Value) :
    Regular bad allowed (pass.walkAll site scope transform record nodes) := by
  induction nodes generalizing record with
  | nil =>
    rw [walkAll]
    exact regular_pure _
  | cons node rest ih =>
    have hrest := ih fun other hother => h other (List.mem_cons_of_mem _ hother)
    rw [walkAll]
    exact (h node List.mem_cons_self _ _ _).bind fun kept => (hrest _).bind fun _ => regular_pure _

theorem walkChosen_regular {chosen : Noted Node} {site : Site}
    (h : ∀ schema, Schema.attachAt site chosen.value = .ok schema →
      Regular bad allowed (pass.walk schema.rootSite scope transform record chosen.value)) :
    Regular bad allowed (pass.walkChosen site scope transform record chosen) := by
  obtain ⟨node, notes⟩ := chosen
  rw [walkChosen]
  refine (regular_notes notes).bind fun _ => ?_
  cases hattach : Schema.attachAt site node with
  | error error =>
    refine .done fun other hother hmade => ?_
    cases hother
    exact Schema.not_internal_of_attachAt hattach (hbad _ hmade)
  | ok schema => exact h schema hattach

/-- **The plan of an accepted tree is regular.** -/
theorem walk_regular {node : Node} {site : Site} (hnode : node.Admitted site.placement)
    (hsite : site.placement ≠ .payload)
    (hkinds : node.Every fun kind => ∀ error, bad error → ¬kind.MakesUp allowed error) :
    Regular bad allowed (pass.walk site scope transform record node) := by
  induction node using Node.inductChosen generalizing site scope transform record with
  | node node hpayload hchildren hchosen =>
  obtain ⟨hkind, hparts, hbelow, hpicked⟩ := Node.every_iff.mp hkinds
  obtain ⟨-, hpartsAdmitted, hbelowAdmitted⟩ := hnode.parts
  rw [walk_eq_layer]
  refine pass.layer_regular hbad scope transform record hnode hsite hkind ?_ ?_ ?_
  · intro scope transform record
    refine pass.walkAll_regular (fun child hchild scope transform record => ?_) _ _ _
    exact hchildren child hchild _ _ _ (hbelowAdmitted child hchild) nofun (hbelow child hchild)
  -- of a payload only the elements of a sequence are walked, and they are no payload themselves
  · intro nodes hnodes scope transform record
    have hplacement : node.payload.placement ≠ .payload := by
      rw [hnodes]
      exact nofun
    refine pass.walkAll_regular (fun part hpart scope transform record => ?_) _ _ _
    exact hpayload part hpart _ _ _ (hpartsAdmitted part hpart) hplacement (hparts part hpart)
  · intro choose hchoose context
    refine pass.walkChosen_regular hbad _ _ _ fun schema hschema => ?_
    obtain ⟨hadmitted, hplacement⟩ := Node.admitted_of_attachAt hschema
    exact hchosen choose hchoose context _ _ _ hadmitted (hplacement ▸ hsite)
      (hpicked choose hchoose context)

end Pass

end Read

open Read Plan

/-- **The plan of a layout is regular.** -/
theorem Schema.readPlan_regular {schema : Schema} {bad : Error → Prop} {allowed : Call → Prop}
    (hsite : schema.site.placement ≠ .payload) (hbad : ∀ error, bad error → error.Internal)
    (hkinds : schema.root.Every fun kind => ∀ error, bad error → ¬kind.MakesUp allowed error)
    (transform : Option Transform) (options : Options) :
    Regular bad allowed (schema.readPlan transform options) := by
  have hroot : ∀ pass : Pass, ∀ scope transform record,
      Regular bad allowed (pass.walk schema.rootSite scope transform record schema.root) :=
    fun pass scope transform record => pass.walk_regular hbad scope transform record
      ⟨schema.site, rfl, schema.checked⟩ hsite hkinds
  unfold readPlan
  split
  · refine Regular.bind ?_ fun target => (regular_event _).bind fun _ => ?_
    · exact regular_ofExcept fun error h herror =>
        not_internal_of_splitTarget h (hbad error herror)
    · exact Pass.inFile_regular hbad _ _ _ _ fun inner record =>
        Pass.walkAll_regular _ (List.forall_mem_singleton.mpr (hroot _)) _ _ _
  · exact (hroot _ _ _ _).bind fun _ => regular_pure _

end ByteLayout
