import ByteLayout.Proofs.Faults
import ByteLayout.Proofs.Script
import ByteLayout.Proofs.Unfolding

/-!
# What scripts do not fail with

A script is **clean** with respect to some bad errors if it ends in none of them and if each of its
scalars is announced, directly before it, as a number of just its width (`Script.Clean`). It is
**regular** if it is clean provided that it calls nothing but what it is allowed to call.

**Theorem (`Pass.walk_regular`).** Where all bad errors are internal, and no codec makes one of them
up, the script of an accepted tree is regular.
-/

namespace ByteLayout

namespace Write

/-! ## Steps -/

/-- Whether each scalar among some steps is announced, directly before it, as a number of its
width. -/
inductive Step.Sized : List Step → Prop
  | nil : Sized []
  | number {path label : String} {bytes : List UInt8} {rest : List Step} :
    Numeric label bytes.length → Sized rest → Sized (.field path label :: .scalar bytes :: rest)
  | other {step : Step} {rest : List Step} :
    (∀ bytes, step ≠ .scalar bytes) → Sized rest → Sized (step :: rest)

namespace Step.Sized

theorem append {first second : List Step} (h : Sized first) (h' : Sized second) :
    Sized (first ++ second) := by
  induction h with
  | nil => exact h'
  | number hnumeric _ ih => exact .number hnumeric ih
  | other hstep _ ih => exact .other hstep ih

/-- No scalar has more than eight bytes. -/
theorem length_le {steps : List Step} (h : Sized steps) {bytes : List UInt8}
    (hbytes : .scalar bytes ∈ steps) : bytes.length ≤ 8 := by
  induction h with
  | nil => cases hbytes
  | number hnumeric _ ih =>
    rcases List.mem_cons.mp hbytes with hfield | hbytes
    · cases hfield
    · rcases List.mem_cons.mp hbytes with hscalar | hbytes
      · cases hscalar
        exact hnumeric.width_le
      · exact ih hbytes
  | other hstep _ ih =>
    rcases List.mem_cons.mp hbytes with hscalar | hbytes
    · exact absurd hscalar.symm (hstep bytes)
    · exact ih hbytes

end Step.Sized

/-! ## Scripts -/

namespace Script

variable {bad : Error → Prop} {allowed : Call → Prop} {α β : Type}

/-- A script that ends in no bad error, and announces its scalars as what they are. -/
structure Clean (bad : Error → Prop) (script : Script α) : Prop where
  avoids : ∀ error, script.outcome = .error error → ¬bad error
  sized : Step.Sized script.steps

/-- Whether all callbacks that a script calls are among some calls. -/
def Calls (allowed : Call → Prop) (script : Script α) : Prop :=
  ∀ call, .record (.call call) ∈ script.steps → allowed call

/-- A script that is clean if it calls nothing but what is among some calls. -/
def Regular (bad : Error → Prop) (allowed : Call → Prop) (script : Script α) : Prop :=
  script.Calls allowed → script.Clean bad

theorem Regular.bind {script : Script α} {f : α → Script β} (h : Regular bad allowed script)
    (hf : ∀ a, script.outcome = .ok a → Regular bad allowed (f a)) :
    Regular bad allowed (script >>= f) := by
  intro hcalls
  cases hout : script.outcome with
  | ok a =>
    rw [Calls, steps_bind_of_ok hout] at hcalls
    have hfirst := h fun call hcall => hcalls call (List.mem_append_left _ hcall)
    have hnext := hf a hout fun call hcall => hcalls call (List.mem_append_right _ hcall)
    constructor
    · rw [outcome_bind_of_ok hout]
      exact hnext.avoids
    · rw [steps_bind_of_ok hout]
      exact hfirst.sized.append hnext.sized
  | error error =>
    rw [Calls, steps_bind_of_error hout] at hcalls
    have hfirst := h hcalls
    constructor
    · intro other hother
      rw [bind_eq, outcome_bind, hout] at hother
      cases hother
      exact hfirst.avoids error hout
    · rw [steps_bind_of_error hout]
      exact hfirst.sized

theorem regular_ofExcept {result : Except Error α}
    (h : ∀ error, result = .error error → ¬bad error) :
    Regular bad allowed (.ofExcept result) :=
  fun _ => ⟨h, .nil⟩

theorem regular_pure (a : α) : Regular bad allowed (Pure.pure a : Script α) :=
  fun _ => ⟨nofun, .nil⟩

theorem regular_fail {error : Error} (h : ¬bad error) :
    Regular bad allowed (fail error : Script α) := by
  refine regular_ofExcept fun other hother => ?_
  cases hother
  exact h

theorem regular_step {s : Step} (h : ∀ bytes, s ≠ .scalar bytes) : Regular bad allowed (step s) :=
  fun _ => ⟨nofun, .other h .nil⟩

theorem regular_event (event : Event) : Regular bad allowed (Script.event event) :=
  regular_step nofun

theorem regular_notes (list : List Note) : Regular bad allowed (notes list) := by
  induction list with
  | nil => exact regular_pure ()
  | cons note rest ih => exact (regular_event (.note note)).bind fun _ _ => ih

theorem regular_called (call : Call) (answer : Noted α) :
    Regular bad allowed (called call answer) :=
  (regular_event _).bind fun _ _ => (regular_notes _).bind fun _ _ => regular_pure _

/-- Something that begins with a callback may count on it being one of those calls. -/
theorem regular_calling {call : Call} {answer : Noted α} {f : α → Script β}
    (h : allowed call → Regular bad allowed (called call answer >>= f)) :
    Regular bad allowed (called call answer >>= f) :=
  fun hcalls => h (hcalls call List.mem_cons_self) hcalls

theorem Regular.collectFrom {item : Nat → Script α}
    (h : ∀ index, Regular bad allowed (item index)) :
    ∀ (count index : Nat) (results : List α),
      Regular bad allowed (collectFrom item count index results)
  | 0, _, _ => regular_pure _
  | count + 1, index, results =>
    (h index).bind fun a _ => Regular.collectFrom h count (index + 1) (a :: results)

end Script

namespace Pass

open Script

variable {bad : Error → Prop} {allowed : Call → Prop}
  (hbad : ∀ error, bad error → error.Internal) (pass : Pass)
  (name : Option String) (default : Option Value) (scope : Scope) (input : Input)
  (record : Fields Value)

/-! ## Values -/

theorem regular_compute (provider : Provider) :
    Regular bad allowed (pass.compute scope record provider) := by
  cases provider with
  | computed f => exact regular_called _ _
  | _ => exact regular_pure _

theorem regular_provided : Regular bad allowed (pass.provided name scope input record) := by
  unfold provided
  split
  · exact regular_pure _
  · exact (pass.regular_compute scope record _).bind fun _ _ => regular_pure _

theorem regular_literal : Regular bad allowed (pass.literal name scope input record) :=
  (pass.regular_provided name scope input record).bind fun _ _ => regular_pure _

include hbad

theorem regular_ofCheck {α : Type} (path : String) {result : Except Reason α}
    (h : ∀ reason, result = .error reason → reason.Plain) :
    Regular bad allowed (ofCheck path result) := by
  cases result with
  | ok a => exact regular_pure a
  | error reason =>
    exact regular_fail fun herror => (h reason rfl).not_internal path (hbad _ herror)

theorem regular_fieldOrder (kind : String) :
    Regular bad allowed (.ofExcept (scope.fieldOrder kind)) :=
  regular_ofExcept fun error h herror => Scope.not_internal_of_fieldOrder h (hbad error herror)

theorem regular_missing {α : Type} : Regular bad allowed (fail (missing scope) : Script α) :=
  regular_fail fun h => hbad _ h

theorem regular_resolve (kind : String) :
    Regular bad allowed (pass.resolve kind name default scope input record) := by
  refine (pass.regular_literal name scope input record).bind fun given _ => ?_
  split
  · exact regular_missing hbad scope
  · exact (regular_event _).bind fun _ _ => regular_pure _

theorem regular_supplier : Regular bad allowed (pass.supplier name default scope input record) := by
  refine (pass.regular_provided name scope input record).bind fun provider _ => ?_
  split
  · exact regular_pure _
  · exact regular_missing hbad scope
  · exact regular_pure _
  · exact regular_pure _
  · exact regular_missing hbad scope

theorem regular_supply (provider : Provider) :
    Regular bad allowed (pass.supply scope record provider) := by
  cases provider with
  | list items => exact regular_pure _
  | lazy generate =>
    exact (regular_called _ _).bind fun _ _ => (regular_event _).bind fun _ _ => regular_pure _
  | _ => exact regular_fail fun h => hbad _ h

omit hbad in
theorem regular_pull (supply : Supply) (index : Nat) :
    Regular bad allowed (pass.pull scope supply index) := by
  unfold pull
  split
  · exact (regular_event _).bind fun _ _ => (regular_notes _).bind fun _ _ =>
      pass.regular_compute _ _ _
  · exact pass.regular_compute _ _ _

/-! ## Fields -/

omit hbad in
theorem regular_scalar {kind : String} {bytes : List UInt8} (h : Numeric kind bytes.length) :
    Regular bad allowed (scalar scope kind bytes) :=
  fun _ => ⟨nofun, .number h .nil⟩

theorem int_regular (kind : IntKind) :
    Regular bad allowed (pass.int kind name default scope input record) := by
  refine (regular_fieldOrder hbad scope kind.label).bind fun order _ => ?_
  refine (pass.regular_resolve hbad name default scope input record kind.label).bind
    fun value _ => ?_
  refine (regular_ofCheck hbad _ fun reason h => IntKind.plain_of_check h).bind fun n _ => ?_
  refine (regular_scalar scope ?_).bind fun _ _ => regular_pure _
  rw [IntKind.length_encode]
  exact kind.numeric

theorem float_regular (kind : FloatKind) :
    Regular bad allowed (pass.float kind name default scope input record) := by
  refine (regular_fieldOrder hbad scope kind.label).bind fun order _ => ?_
  refine (pass.regular_resolve hbad name default scope input record kind.label).bind
    fun value _ => ?_
  refine (regular_ofCheck hbad _ fun reason h => FloatKind.plain_of_check h).bind fun x _ => ?_
  refine (regular_scalar scope ?_).bind fun _ _ => regular_pure _
  rw [FloatKind.length_encode]
  exact kind.numeric

omit hbad in
theorem plain_of_lengthOf {kind : IntKind} {bytes : Nat} {reason : Reason}
    (h : lengthOf kind bytes = .error reason) : reason.Plain := by
  unfold lengthOf at h
  split at h
  · cases h
  · cases h
    trivial

theorem string_regular (kind : IntKind) {text : Node} (htext : text.kind.isText = true) :
    Regular bad allowed (pass.string kind text name default scope input record) := by
  refine (regular_fieldOrder hbad scope kind.label).bind fun order _ => ?_
  cases hkind : text.kind with
  | text encoding =>
    refine (pass.regular_resolve hbad _ _ _ _ _ _).bind fun value _ => ?_
    refine (regular_ofCheck hbad _ fun reason h => Value.plain_of_toText h).bind
      fun content _ => ?_
    refine (regular_ofCheck hbad _ fun reason h => TextEncoding.plain_of_toBytes h).bind
      fun bytes _ => ?_
    refine (regular_ofCheck hbad _ fun reason h => plain_of_lengthOf h).bind fun length _ => ?_
    refine (regular_scalar scope ?_).bind fun _ _ => (regular_step (by nofun)).bind
      fun _ _ => regular_pure _
    rw [IntKind.length_encode]
    exact kind.numeric
  | _ =>
    rw [hkind] at htext
    cases htext

theorem custom_regular {codec : Codec}
    (hcodec : ∀ error, bad error → ¬(Kind.custom codec).MakesUp allowed error) (kind : String) :
    Regular bad allowed (pass.custom codec kind name default scope input record) := by
  refine (regular_fieldOrder hbad scope kind).bind fun order _ => ?_
  refine (pass.regular_literal name scope input record).bind fun given _ => ?_
  -- only here a bad error may come in, and then it was made up in this very call
  refine regular_calling fun hallowed => (regular_called _ _).bind fun encoded hencoded => ?_
  rw [outcome_called, Except.ok.injEq] at hencoded
  cases encoded with
  | error fault =>
    refine regular_fail fun herror => ?_
    cases fault with
    | library error => exact hcodec error herror (.inl ⟨_, _, hallowed, hencoded⟩)
    | foreign text => exact hbad _ herror
  | ok bytes =>
    exact (regular_step (by nofun)).bind fun _ _ => (regular_step (by nofun)).bind
      fun _ _ => regular_pure _

/-! ## Sequences and files -/

omit hbad in
theorem plain_of_countOf {kind : IntKind} {count : Value} {reason : Reason}
    (h : countOf kind count = .error reason) : reason.Plain := by
  unfold countOf at h
  split at h
  · cases h
  · cases h
    trivial

theorem sequence_regular (kind : IntKind) (elements : List Node)
    {content : Scope → Provider → Script (List Value × Fields Value)}
    (hcontent : ∀ inner item, Regular bad allowed (content inner item)) :
    Regular bad allowed (pass.sequence kind elements name default scope input record content) := by
  refine (regular_fieldOrder hbad scope kind.label).bind fun order _ => ?_
  refine (pass.regular_supplier hbad name default scope input record).bind fun provider _ => ?_
  refine (pass.regular_supply hbad scope record provider).bind fun supply _ => ?_
  refine (regular_ofCheck hbad _ fun reason h => plain_of_countOf h).bind fun count _ => ?_
  refine (regular_scalar scope ?_).bind fun _ _ => ?_
  · rw [IntKind.length_encode]
    exact kind.numeric
  refine (Regular.collectFrom (fun index => ?_) _ _ _).bind fun _ _ => regular_pure _
  exact (pass.regular_pull scope supply index).bind fun item _ => (hcontent _ item).bind
    fun _ _ => (regular_event _).bind fun _ _ => regular_pure _

theorem inFile_regular (relative : String)
    {content : Scope → Fields Value → Script (List Value × Fields Value)}
    (hcontent : ∀ inner record, Regular bad allowed (content inner record)) :
    Regular bad allowed (pass.inFile relative scope record content) := by
  have henter : Regular bad allowed (.ofExcept (scope.enterFile relative)) :=
    regular_ofExcept fun error h herror => Scope.not_internal_of_enterFile h (hbad error herror)
  exact henter.bind fun _ _ => (regular_event _).bind fun _ _ => (regular_step (by nofun)).bind
    fun _ _ => (hcontent _ _).bind fun _ _ => (regular_step (by nofun)).bind
    fun _ _ => regular_pure _

omit hbad in
theorem arrange_regular {walked : Script (List Value × Fields Value)}
    (h : Regular bad allowed walked) :
    Regular bad allowed (arrange walked) :=
  h.bind fun _ _ => regular_pure _

/-! ## Trees -/

/-- **A node adds nothing irregular** to its parts, if it is accepted somewhere but in a payload. -/
theorem layer_regular {node : Node} {placement : Placement} (hnode : node.Admitted placement)
    (hplacement : placement ≠ .payload)
    (hkind : ∀ error, bad error → ¬node.kind.MakesUp allowed error)
    {children elements : Plans} {chosen : Noted Node → Script Kept}
    (hchildren : ∀ scope inputs record, Regular bad allowed (children scope inputs record))
    (helements : ∀ nodes, node.payload = .sequence nodes →
      ∀ scope inputs record, Regular bad allowed (elements scope inputs record))
    (hchosen : ∀ choose, node.kind = .select choose →
      ∀ context, Regular bad allowed (chosen (choose context))) :
    Regular bad allowed
      (pass.layer node node.payload children elements chosen scope input record) := by
  have htext := hnode.not_isText hplacement
  unfold layer
  cases hcases : node.kind with
  | order order below => exact arrange_regular (hchildren _ _ _)
  | group below => exact arrange_regular (hchildren _ _ _)
  | directory path below => exact arrange_regular (hchildren _ _ _)
  | file path below =>
    exact (pass.inFile_regular hbad scope record path fun inner record => hchildren _ _ _).bind
      fun _ _ => regular_pure _
  | select choose => exact (regular_event _).bind fun _ _ => hchosen choose hcases _
  | custom codec =>
    rw [hcases] at hkind
    exact pass.custom_regular hbad _ _ _ input record hkind _
  | text encoding =>
    rw [hcases] at htext
    cases htext
  | float kind => exact pass.float_regular hbad _ _ _ input record kind
  | int kind =>
    cases hpayload : node.payload with
    | none => exact pass.int_regular hbad _ _ _ input record kind
    | text text =>
      exact pass.string_regular hbad _ _ _ input record kind (hnode.isText_of_text hpayload)
    | sequence nodes =>
      exact pass.sequence_regular hbad _ _ _ input record kind nodes fun inner item =>
        helements nodes hpayload _ _ _

omit hbad in
theorem walkAll_regular {nodes : List Node} {site : Site}
    (h : ∀ node ∈ nodes, ∀ scope input record,
      Regular bad allowed (pass.walk site scope input record node)) (scope : Scope)
    (inputs : Nat → Input) (index : Nat) (record : Fields Value) :
    Regular bad allowed (pass.walkAll site scope inputs index record nodes) := by
  induction nodes generalizing index record with
  | nil =>
    rw [walkAll]
    exact regular_pure _
  | cons node rest ih =>
    have hrest := ih fun other hother => h other (List.mem_cons_of_mem _ hother)
    rw [walkAll]
    exact (h node List.mem_cons_self _ _ _).bind fun kept _ => (hrest _ _).bind
      fun _ _ => regular_pure _

theorem walkChosen_regular {chosen : Noted Node} {site : Site}
    (h : ∀ schema, Schema.attachAt site chosen.value = .ok schema → ∀ scope input record,
      Regular bad allowed (pass.walk schema.rootSite scope input record chosen.value)) :
    Regular bad allowed (pass.walkChosen site scope input record chosen) := by
  obtain ⟨node, notes⟩ := chosen
  rw [walkChosen]
  refine (regular_notes notes).bind fun _ _ => Regular.bind ?_
    fun schema hschema => h schema hschema _ _ _
  exact regular_ofExcept fun error herror hmade =>
    Schema.not_internal_of_attachAt herror (hbad error hmade)

/-- **The script of an accepted tree is regular.** -/
theorem walk_regular {node : Node} {site : Site} (hnode : node.Admitted site.placement)
    (hsite : site.placement ≠ .payload)
    (hkinds : node.Every fun kind => ∀ error, bad error → ¬kind.MakesUp allowed error) :
    Regular bad allowed (pass.walk site scope input record node) := by
  induction node using Node.inductChosen generalizing site scope input record with
  | node node hpayload hchildren hchosen =>
  obtain ⟨hkind, hparts, hbelow, hpicked⟩ := Node.every_iff.mp hkinds
  obtain ⟨-, hpartsAdmitted, hbelowAdmitted⟩ := hnode.parts
  rw [walk_eq_layer]
  refine pass.layer_regular hbad scope input record hnode hsite hkind ?_ ?_ ?_
  · intro scope inputs record
    refine pass.walkAll_regular (fun child hchild scope input record => ?_) _ _ _ _
    exact hchildren child hchild _ _ _ (hbelowAdmitted child hchild) nofun (hbelow child hchild)
  -- of a payload only the elements of a sequence are walked, and they are no payload themselves
  · intro nodes hnodes scope inputs record
    have hplacement : node.payload.placement ≠ .payload := by
      rw [hnodes]
      exact nofun
    refine pass.walkAll_regular (fun part hpart scope input record => ?_) _ _ _ _
    exact hpayload part hpart _ _ _ (hpartsAdmitted part hpart) hplacement (hparts part hpart)
  · intro choose hchoose context
    refine pass.walkChosen_regular hbad _ _ _ fun schema hschema scope input record => ?_
    obtain ⟨hadmitted, hplacement⟩ := Node.admitted_of_attachAt hschema
    exact hchosen choose hchoose context _ _ _ hadmitted (hplacement ▸ hsite)
      (hpicked choose hchoose context)

end Pass

end Write

open Write Script

/-- **The script of a layout is regular.** -/
theorem Schema.writeScript_regular {schema : Schema} {bad : Error → Prop} {allowed : Call → Prop}
    (hsite : schema.site.placement ≠ .payload) (hbad : ∀ error, bad error → error.Internal)
    (hkinds : schema.root.Every fun kind => ∀ error, bad error → ¬kind.MakesUp allowed error)
    (provider : Provider) (options : Options) :
    Regular bad allowed (schema.writeScript provider options) := by
  have hroot : ∀ pass : Pass, ∀ scope input record,
      Regular bad allowed (pass.walk schema.rootSite scope input record schema.root) :=
    fun pass scope input record => pass.walk_regular hbad scope input record
      ⟨schema.site, rfl, schema.checked⟩ hsite hkinds
  unfold writeScript
  split
  · refine Regular.bind ?_ fun target _ => (regular_event _).bind fun _ _ => ?_
    · exact regular_ofExcept fun error h herror =>
        not_internal_of_splitTarget h (hbad error herror)
    · exact Pass.inFile_regular hbad _ _ _ _ fun inner record =>
        Pass.walkAll_regular _ (List.forall_mem_singleton.mpr (hroot _)) _ _ _ _
  · exact (hroot _ _ _ _).bind fun _ _ => regular_pure _

end ByteLayout
