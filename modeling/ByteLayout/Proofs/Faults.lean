import ByteLayout.Proofs.Integer
import ByteLayout.Proofs.Float
import ByteLayout.Proofs.Stopping
import ByteLayout.Proofs.WellFormed

/-!
# Faults of the engines

Two errors report a fault of the library rather than one of its user: a text visited on its own, or
found missing where a string has its text, and a window that is larger than the buffer it is to be
in. They are **internal** (`Error.Internal`).

A pass is not to fail with them, except that a codec of a custom field may make up any error
(`Kind.MakesUp`). Here is what keeps it from doing so: no value is refused for the size of a window
(`Reason.Plain`), and in a tree that was accepted a text is nothing but the text of a string
(`Node.Admitted`).
-/

namespace ByteLayout

/-- Whether an error reports a fault of the library. -/
def Error.Internal : Error → Prop
  | .unexpectedNode .. => True
  | .invalidValue _ (.windowTooLarge ..) => True
  | _ => False

/-- What a sink, a source or the end of it is the cause of is no fault of the library. -/
theorem Error.Internal.category {error : Error} (h : error.Internal) :
    error.category = .configuration ∨ error.category = .value := by
  cases error with
  | unexpectedNode => exact .inl rfl
  | invalidValue => exact .inr rfl
  | _ => cases h

/-! ## Refused values -/

/-- Whether a value was refused for what it is, and not for the size of a window. -/
def Reason.Plain : Reason → Prop
  | .windowTooLarge .. => False
  | _ => True

theorem Reason.Plain.not_internal {reason : Reason} (h : reason.Plain) (path : String) :
    ¬(Error.invalidValue path reason).Internal := by
  cases reason with
  | windowTooLarge => cases h
  | _ => exact id

theorem Value.plain_of_toInteger {value : Value} {reason : Reason}
    (h : value.toInteger = .error reason) : reason.Plain := by
  unfold toInteger at h
  split at h
  · cases h
  · next x =>
    generalize x.toInt? = found at h
    cases found with
    | some n => cases h
    | none =>
      cases h
      trivial
  · cases h
    trivial

theorem IntKind.plain_of_check {kind : IntKind} {value : Value} {reason : Reason}
    (h : kind.check value = .error reason) : reason.Plain := by
  unfold check at h
  split at h
  · next hvalue =>
    cases h
    exact Value.plain_of_toInteger hvalue
  · split at h
    · cases h
    · cases h
      trivial

theorem FloatKind.plain_of_toDouble {n : Number} {reason : Reason}
    (h : toDouble n = .error reason) : reason.Plain := by
  unfold toDouble at h
  split at h
  · next n =>
    generalize Finite.ofInt? .binary64 n = found at h
    cases found with
    | some x => cases h
    | none =>
      cases h
      trivial
  · cases h

theorem FloatKind.plain_of_check {kind : FloatKind} {value : Value} {reason : Reason}
    (h : kind.check value = .error reason) : reason.Plain := by
  unfold check at h
  split at h
  · split at h
    · next hdouble =>
      cases h
      exact plain_of_toDouble hdouble
    · split at h
      · cases h
      · cases h
        trivial
  · cases h
    trivial

theorem Value.plain_of_toText {value : Value} {reason : Reason}
    (h : value.toText = .error reason) : reason.Plain := by
  unfold toText at h
  split at h
  · cases h
  · cases h
  · cases h
  · cases h
  · cases h
    trivial

theorem TextEncoding.plain_of_toBytes {encoding : TextEncoding} {text : String} {reason : Reason}
    (h : encoding.toBytes text = .error reason) : reason.Plain := by
  unfold toBytes at h
  split at h
  · cases h
  · cases h
    trivial

/-! ## Refused places and trees -/

theorem Scope.not_internal_of_fieldOrder {scope : Scope} {kind : String} {error : Error}
    (h : scope.fieldOrder kind = .error error) : ¬error.Internal := by
  unfold fieldOrder requireOrder at h
  split at h
  · cases h
    exact id
  · split at h
    · cases h
    · cases h
      exact id

theorem Scope.not_internal_of_enterFile {scope : Scope} {relative : String} {error : Error}
    (h : scope.enterFile relative = .error error) : ¬error.Internal := by
  unfold enterFile at h
  dsimp only at h
  split at h
  · cases h
    exact id
  · cases h

theorem not_internal_of_splitTarget {target : String} {error : Error}
    (h : splitTarget target = .error error) : ¬error.Internal := by
  unfold splitTarget at h
  split at h
  · cases h
  · cases h
    exact id

theorem Error.Structural.not_internal {error : Error} (h : error.Structural) : ¬error.Internal := by
  cases error <;> first | exact id | cases h

theorem Schema.not_internal_of_attachAt {site : Site} {node : Node} {error : Error}
    (h : attachAt site node = .error error) : ¬error.Internal := by
  cases hcheck : node.check site with
  | ok =>
    rw [attachAt_of_ok hcheck] at h
    cases h
  | error other =>
    rw [attachAt_of_error hcheck] at h
    cases h
    exact (Node.structural_of_check hcheck).not_internal

/-! ## Numbers -/

/-- Whether a label is that of an integer or float kind of some width. -/
def Numeric (label : String) (width : Nat) : Prop :=
  (∃ kind : IntKind, label = kind.label ∧ width = kind.width) ∨
    ∃ kind : FloatKind, label = kind.label ∧ width = kind.width

theorem IntKind.numeric (kind : IntKind) : Numeric kind.label kind.width := .inl ⟨kind, rfl, rfl⟩

theorem FloatKind.numeric (kind : FloatKind) : Numeric kind.label kind.width :=
  .inr ⟨kind, rfl, rfl⟩

/-- A custom field is no number. -/
theorem not_numeric_custom (width : Nat) : ¬Numeric "CUSTOM" width := by
  rintro (⟨kind, hlabel, -⟩ | ⟨kind, hlabel, -⟩)
  · cases kind <;> exact absurd hlabel (by decide)
  · cases kind <;> exact absurd hlabel (by decide)

theorem Numeric.width_le {label : String} {width : Nat} (h : Numeric label width) : width ≤ 8 := by
  rcases h with ⟨kind, -, rfl⟩ | ⟨kind, -, rfl⟩
  · exact kind.width_le
  · exact kind.width_le

/-! ## Errors of callbacks -/

/-- A decoder can end in an error that no reply was. -/
inductive Decoding.EndsIn {α : Type} (error : Error) : Decoding α → Prop
  | fail : EndsIn error (.done (.error (.library error)))
  | ask {question : DecoderQuestion} {next : question.Reply → Decoding α} {reply : question.Reply} :
    question.error? reply ≠ some error → EndsIn error (next reply) →
    EndsIn error (.ask question next)

/-- Whether the codec of a kind, if it has one, can make an error up in one of some calls. -/
def Kind.MakesUp (allowed : Call → Prop) (error : Error) : Kind → Prop
  | .custom codec =>
    (∃ value context, allowed (.encode value context) ∧
      (codec.encode context value).run.value = .error (.library error)) ∨
    ∃ context, allowed (.decode context) ∧ (codec.decode context).EndsIn error
  | _ => False

theorem Kind.not_makesUp {allowed : Call → Prop} {error : Error} {kind : Kind}
    (h : ∀ codec, kind ≠ .custom codec) : ¬kind.MakesUp allowed error := by
  cases kind with
  | custom codec => exact absurd rfl (h codec)
  | _ => exact id

/-! ## Trees -/

namespace Node

variable {P : Kind → Prop}

theorem everyAll_iff {nodes : List Node} : EveryAll P nodes ↔ ∀ node ∈ nodes, node.Every P := by
  induction nodes with
  | nil => exact ⟨fun _ => List.forall_mem_nil _, fun _ => trivial⟩
  | cons node rest ih => rw [List.forall_mem_cons, ← ih, EveryAll]

theorem everyNoted_iff {chosen : Noted Node} : EveryNoted P chosen ↔ chosen.value.Every P := by
  cases chosen
  rfl

theorem everyPayload_iff {payload : Payload} :
    EveryPayload P payload ↔ ∀ part ∈ payload.nodes, part.Every P := by
  cases payload with
  | none => exact @everyAll_iff P []
  | text text =>
    show text.Every P ↔ ∀ part ∈ [text], part.Every P
    rw [List.forall_mem_singleton]
  | sequence elements => exact @everyAll_iff P elements

theorem everyKind_iff {kind : Kind} :
    EveryKind P kind ↔ (∀ child ∈ kind.children, child.Every P) ∧
      ∀ choose, kind = .select choose → ∀ context, (choose context).value.Every P := by
  by_cases hselect : ∃ choose, kind = .select choose
  · obtain ⟨choose, rfl⟩ := hselect
    simp only [EveryKind, Kind.children, Kind.select.injEq, forall_eq', everyNoted_iff]
    exact (and_iff_right (List.forall_mem_nil _)).symm
  · have hnone : ∀ choose, kind = .select choose →
        ∀ context, (choose context).value.Every P :=
      fun choose hchoose => absurd ⟨choose, hchoose⟩ hselect
    rw [and_iff_left hnone, ← everyAll_iff]
    cases kind with
    | select choose => exact absurd ⟨choose, rfl⟩ hselect
    | _ => rfl

/-- What holds of every kind of a tree holds of its own kind and of those below it, what its selects
may pick included. -/
theorem every_iff {node : Node} : node.Every P ↔ P node.kind ∧
    (∀ part ∈ node.payload.nodes, part.Every P) ∧ (∀ child ∈ node.kind.children, child.Every P) ∧
    ∀ choose, node.kind = .select choose → ∀ context, (choose context).value.Every P := by
  obtain ⟨kind, name, default, payload⟩ := node
  show P kind ∧ EveryPayload P payload ∧ EveryKind P kind ↔ _
  rw [everyPayload_iff, everyKind_iff]
  rfl

theorem every_of_forall (h : ∀ kind, P kind) (node : Node) : node.Every P := by
  induction node using inductChosen with
  | node node hpayload hchildren hchosen => exact every_iff.mpr ⟨h _, hpayload, hchildren, hchosen⟩

/-! ### Accepted trees -/

theorem check_of_checkAll {site : Site} {nodes : List Node} (h : checkAll site nodes = .ok ())
    {node : Node} (hnode : node ∈ nodes) : node.check site = .ok () := by
  induction nodes with
  | nil => cases hnode
  | cons first rest ih =>
    change ((first.check site).bind fun _ => checkAll site rest) = .ok () at h
    cases hfirst : first.check site with
    | error error =>
      rw [hfirst] at h
      cases h
    | ok =>
      rw [hfirst] at h
      rcases List.mem_cons.mp hnode with rfl | hnode
      · exact hfirst
      · exact ih h hnode

/-- Whether a tree is accepted at some site with a placement. -/
def Admitted (placement : Placement) (node : Node) : Prop :=
  ∃ site : Site, site.placement = placement ∧ node.check site = .ok ()

variable {placement : Placement} {node : Node}

theorem Admitted.parts (h : node.Admitted placement) :
    (∃ site : Site, site.placement = placement ∧ node.checkSelf site = .ok ()) ∧
    (∀ part ∈ node.payload.nodes, part.Admitted node.payload.placement) ∧
      ∀ child ∈ node.kind.children, child.Admitted .child := by
  obtain ⟨site, hsite, hcheck⟩ := h
  rw [check_eq_bind] at hcheck
  cases hself : node.checkSelf site with
  | error error =>
    rw [hself] at hcheck
    cases hcheck
  | ok =>
    rw [hself] at hcheck
    change Except.bind _ _ = _ at hcheck
    cases hparts : checkAll (site.below node.payload.placement node) node.payload.nodes with
    | error error =>
      rw [hparts] at hcheck
      cases hcheck
    | ok =>
      rw [hparts] at hcheck
      exact ⟨⟨site, hsite, hself⟩, fun part hpart => ⟨_, rfl, check_of_checkAll hparts hpart⟩,
        fun child hchild => ⟨_, rfl, check_of_checkAll hcheck hchild⟩⟩

/-- A text stands nowhere but in a payload. -/
theorem Admitted.not_isText (h : node.Admitted placement) (hplacement : placement ≠ .payload) :
    node.kind.isText = false := by
  obtain ⟨⟨site, rfl, hself⟩, -, -⟩ := h.parts
  obtain ⟨hkind, -⟩ := checkSelf_eq_ok.mp hself
  unfold checkKind at hkind
  split at hkind
  · cases hkind
  · split at hkind
    · cases hkind
    · next htext => simpa [hplacement] using htext

/-- The text of a string is a text. -/
theorem Admitted.isText_of_text (h : node.Admitted placement) {text : Node}
    (htext : node.payload = .text text) : text.kind.isText = true := by
  obtain ⟨⟨site, -, hself⟩, -, -⟩ := h.parts
  exact (((checkPayload_eq_ok site).mp (checkSelf_eq_ok.mp hself).2).1 text htext).1

/-- What replaces a `select` is accepted where the `select` stands. -/
theorem admitted_of_attachAt {site : Site} {above picked : Node} {schema : Schema}
    (h : Schema.attachAt (site.ofSelect above) picked = .ok schema) :
    picked.Admitted schema.rootSite.placement ∧ schema.rootSite.placement = site.placement := by
  obtain ⟨rfl, hsite⟩ := Schema.of_attachAt h
  have hplacement : schema.site.placement = (site.ofSelect above).placement := by rw [hsite]
  exact ⟨⟨schema.site, rfl, schema.checked⟩, hplacement⟩

end Node

end ByteLayout
