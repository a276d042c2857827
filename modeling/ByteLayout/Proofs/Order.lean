import ByteLayout.Proofs.Float
import ByteLayout.Proofs.Integer
import ByteLayout.Proofs.Silence
import ByteLayout.Write.Pass

/-!
# Write passes are orderly

**Theorem (`writeScript_orderly`).** Every write pass opens its files one at a time, announces and
writes fields only while a file is open, and writes no scalar of more than eight bytes; if it ends
well, no file is left open.

The proof goes through the tree as the pass does. The scope says whether a file is open: fields
outside of any file are refused before they write anything, and so is a file within a file.
-/

namespace ByteLayout

/-- A field with a byte order lies in a file. -/
theorem Scope.isSome_file_of_fieldOrder {scope : Scope} {kind : String} {order : ByteOrder}
    (h : scope.fieldOrder kind = .ok order) : scope.file.isSome = true := by
  unfold fieldOrder at h
  split at h
  · cases h
  · next hfile =>
    rw [hfile]
    rfl

namespace Write

namespace Pass

open Script

variable (pass : Pass) (name : Option String) (default : Option Value) (scope : Scope)
  (input : Input) (record : Fields Value)

/-! ## Fields -/

/-- What follows the byte order of a field happens in a file. -/
theorem orderly_field {α : Type} (kind : String) {f : ByteOrder → Script α}
    (hf : ∀ order, Orderly true true (f order)) :
    Orderly scope.file.isSome scope.file.isSome (.ofExcept (scope.fieldOrder kind) >>= f) := by
  refine (orderly_of_no_steps rfl).bind fun order horder => ?_
  rw [Scope.isSome_file_of_fieldOrder horder]
  exact hf order

theorem orderly_scalar (kind : String) {bytes : List UInt8} (h : bytes.length ≤ 8) :
    Orderly true true (scalar scope kind bytes) := by
  refine (orderly_step rfl).bind fun _ _ => orderly_step ?_
  simp only [Step.next, h, and_self, if_true]

theorem int_orderly (kind : IntKind) :
    Orderly scope.file.isSome scope.file.isSome
      (pass.int kind name default scope input record) := by
  refine orderly_field scope kind.label fun order => ?_
  refine (pass.silent_resolve name default scope input record kind.label).orderly.bind
    fun value _ => ?_
  refine (orderly_of_no_steps (steps_ofCheck _ _)).bind fun n _ => ?_
  refine (orderly_scalar scope kind.label ?_).bind fun _ _ => orderly_of_no_steps rfl
  rw [IntKind.length_encode]
  exact kind.width_le

theorem float_orderly (kind : FloatKind) :
    Orderly scope.file.isSome scope.file.isSome
      (pass.float kind name default scope input record) := by
  refine orderly_field scope kind.label fun order => ?_
  refine (pass.silent_resolve name default scope input record kind.label).orderly.bind
    fun value _ => ?_
  refine (orderly_of_no_steps (steps_ofCheck _ _)).bind fun x _ => ?_
  refine (orderly_scalar scope kind.label ?_).bind fun _ _ => orderly_of_no_steps rfl
  rw [FloatKind.length_encode]
  exact kind.width_le

theorem string_orderly (kind : IntKind) (text : Node) :
    Orderly scope.file.isSome scope.file.isSome
      (pass.string kind text name default scope input record) := by
  refine orderly_field scope kind.label fun order => ?_
  split
  · refine (pass.silent_resolve _ _ _ _ _ _).orderly.bind fun value _ => ?_
    refine (orderly_of_no_steps (steps_ofCheck _ _)).bind fun content _ => ?_
    refine (orderly_of_no_steps (steps_ofCheck _ _)).bind fun bytes _ => ?_
    refine (orderly_of_no_steps (steps_ofCheck _ _)).bind fun length _ => ?_
    refine (orderly_scalar scope kind.label ?_).bind fun _ _ => ?_
    · rw [IntKind.length_encode]
      exact kind.width_le
    · exact (orderly_step rfl).bind fun _ _ => orderly_of_no_steps rfl
  · exact orderly_of_no_steps rfl

theorem custom_orderly (codec : Codec) (kind : String) :
    Orderly scope.file.isSome scope.file.isSome
      (pass.custom codec kind name default scope input record) := by
  refine orderly_field scope kind fun order => ?_
  refine (pass.silent_literal name scope input record).orderly.bind fun given _ => ?_
  refine (silent_called ⟨rfl, rfl⟩ _).orderly.bind fun encoded _ => ?_
  split
  · exact orderly_of_no_steps rfl
  · exact (orderly_step rfl).bind fun _ _ => (orderly_step rfl).bind fun _ _ =>
      orderly_of_no_steps rfl

/-! ## Sequences and files -/

theorem sequence_orderly (kind : IntKind) (elements : List Node)
    {content : Scope → Provider → Script (List Value × Fields Value)}
    (hcontent : ∀ inner item, inner.file = scope.file →
      Orderly inner.file.isSome inner.file.isSome (content inner item)) :
    Orderly scope.file.isSome scope.file.isSome
      (pass.sequence kind elements name default scope input record content) := by
  refine (orderly_of_no_steps rfl).bind fun order horder => ?_
  have hfile := Scope.isSome_file_of_fieldOrder horder
  rw [hfile]
  refine (pass.silent_supplier name default scope input record).orderly.bind fun provider _ => ?_
  refine (pass.silent_supply scope record provider).orderly.bind fun supply _ => ?_
  refine (orderly_of_no_steps (steps_ofCheck _ _)).bind fun count _ => ?_
  refine (orderly_scalar scope kind.label ?_).bind fun _ _ => ?_
  · rw [IntKind.length_encode]
    exact kind.width_le
  refine (Orderly.collectFrom (fun index => ?_) _ _ _).bind fun _ _ => orderly_of_no_steps rfl
  refine (pass.silent_pull scope supply index).orderly.bind fun item _ => ?_
  have hitem := hcontent (scope.item index) item rfl
  rw [show (scope.item index).file = scope.file from rfl, hfile] at hitem
  exact hitem.bind fun _ _ => (orderly_event _).bind fun _ _ => orderly_of_no_steps rfl

theorem inFile_orderly (relative : String)
    {content : Scope → Fields Value → Script (List Value × Fields Value)}
    (hcontent : ∀ inner record, inner.file.isSome = true →
      Orderly true true (content inner record)) :
    Orderly scope.file.isSome scope.file.isSome
      (pass.inFile relative scope record content) := by
  refine (orderly_of_no_steps rfl).bind fun inner hinner => ?_
  rw [outcome_ofExcept, Scope.enterFile] at hinner
  cases hfile : scope.file with
  | some path =>
    rw [hfile] at hinner
    cases hinner
  | none =>
    rw [hfile] at hinner
    cases hinner
    refine (orderly_event _).bind fun _ _ => (orderly_step rfl).bind fun _ _ => ?_
    refine (hcontent _ _ rfl).bind fun _ _ => (orderly_step rfl).bind fun _ _ => ?_
    exact orderly_of_no_steps rfl

theorem arrange_orderly {inFile : Bool} {walked : Script (List Value × Fields Value)}
    (h : Orderly inFile inFile walked) : Orderly inFile inFile (arrange walked) :=
  h.bind fun _ _ => orderly_of_no_steps rfl

/-! ## The walk -/

mutual

theorem walk_orderly (site : Site) (scope : Scope) (input : Input) (record : Fields Value) :
    ∀ node : Node,
      Orderly scope.file.isSome scope.file.isSome (pass.walk site scope input record node)
  | .mk kind name default payload => by
    cases kind with
    | order order children =>
      rw [walk]
      exact arrange_orderly (walkAll_orderly _ (scope.withOrder order) _ 0 record children)
    | group children =>
      rw [walk]
      exact arrange_orderly (walkAll_orderly _ scope _ 0 record children)
    | directory path children =>
      rw [walk]
      exact arrange_orderly (walkAll_orderly _ (scope.enterDir path) _ 0 record children)
    | file path children =>
      rw [walk]
      refine (inFile_orderly pass scope record path fun inner record hinner => ?_).bind
        fun _ _ => orderly_of_no_steps rfl
      rw [← hinner]
      exact walkAll_orderly _ inner _ 0 record children
    | select choose =>
      rw [walk]
      exact (orderly_event _).bind fun _ _ =>
        walkChosen_orderly _ scope input record (choose (scope.context pass.user record))
    | custom codec =>
      rw [walk]
      exact custom_orderly pass name default (scope.field _) input record codec _
    | text encoding =>
      rw [walk]
      exact orderly_of_no_steps rfl
    | float kind =>
      rw [walk]
      exact float_orderly pass name default (scope.field _) input record kind
    | int kind =>
      cases payload with
      | none =>
        rw [walk]
        exact int_orderly pass name default (scope.field _) input record kind
      | text text =>
        rw [walk]
        exact string_orderly pass name default (scope.field _) input record kind text
      | sequence elements =>
        rw [walk]
        exact sequence_orderly pass name default (scope.field _) input record kind elements
          fun inner item _ => walkAll_orderly _ inner _ 0 [] elements
termination_by structural node => node

theorem walkChosen_orderly (site : Site) (scope : Scope) (input : Input) (record : Fields Value) :
    ∀ chosen : Noted Node,
      Orderly scope.file.isSome scope.file.isSome (pass.walkChosen site scope input record chosen)
  | ⟨node, notes⟩ => by
    rw [walkChosen]
    exact (silent_notes notes).orderly.bind fun _ _ => (orderly_of_no_steps rfl).bind
      fun schema _ => walk_orderly schema.rootSite scope input record node
termination_by structural chosen => chosen

theorem walkAll_orderly (site : Site) (scope : Scope) (inputs : Nat → Input) (index : Nat)
    (record : Fields Value) : ∀ nodes : List Node,
      Orderly scope.file.isSome scope.file.isSome
        (pass.walkAll site scope inputs index record nodes)
  | [] => by
    rw [walkAll]
    exact orderly_of_no_steps rfl
  | node :: rest => by
    rw [walkAll]
    exact (walk_orderly site scope (inputs index) record node).bind fun kept _ =>
      (walkAll_orderly site scope inputs (index + 1) kept.2 rest).bind fun _ _ =>
        orderly_of_no_steps rfl
termination_by structural nodes => nodes

end

end Pass

end Write

open Write Script

/-- **Write passes are orderly.** -/
theorem Schema.writeScript_orderly (schema : Schema) (provider : Provider) (options : Options) :
    Orderly false false (schema.writeScript provider options) := by
  unfold Schema.writeScript
  split
  · refine (orderly_of_no_steps rfl).bind fun target _ => (orderly_event _).bind fun _ _ => ?_
    refine Pass.inFile_orderly _ (.base target.1) _ target.2 fun inner record hinner => ?_
    rw [← hinner]
    exact Pass.walkAll_orderly _ _ inner _ _ record [schema.root]
  · exact (Pass.walk_orderly _ _ (.base options.path) _ _ schema.root).bind fun _ _ =>
      orderly_of_no_steps rfl

end ByteLayout
