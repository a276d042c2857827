import ByteLayout.Proofs.Conformance
import ByteLayout.Proofs.ReadBack

/-!
# Scripts of values that fit

A script **yields** a result (`Script.Yields`) if it ends well with it, neither opens nor closes a
file, and found nothing that cannot be read again. Whether a field yields a value is decided by the
value and the kind of the field: an integer that the kind holds, a double that it represents, a text
that fits behind its length, and a list whose items are yielded one by one.
-/

namespace ByteLayout

/-! ## Providers of values -/

namespace Provider

theorem ofItems_eq_map (items : List Value) : ofItems items = items.map ofValue := by
  induction items with
  | nil => rfl
  | cons item rest ih => rw [ofItems, ih, List.map_cons]

theorem get?_ofFields (fields : Fields Value) (name : String) :
    Fields.get? (ofFields fields) name = (Fields.get? fields name).map ofValue := by
  induction fields with
  | nil => rfl
  | cons head rest ih =>
    rw [ofFields, Fields.get?, Fields.get?, ih]
    split <;> rfl

/-- A record of values has under a name what the record has there. -/
theorem lookup?_ofFields {fields : Fields Value} {name : String} {value : Value}
    (h : Fields.get? fields name = some value) :
    (Input.within (.record (ofFields fields))).lookup? (some name) = some (ofValue value) := by
  show Fields.get? (ofFields fields) name = _
  rw [get?_ofFields, h, Option.map_some]

end Provider

namespace Write

variable {α β : Type}

/-! ## Scripts that yield -/

/-- A script ends well with a result, stays in the file that is open, and what it found in its
provider is faithful. -/
structure Script.Yields (script : Script α) (a : α) : Prop where
  outcome : script.outcome = .ok a
  faithful : script.Faithful
  inside : ∀ step ∈ script.steps, step.Inside

namespace Script

theorem Yields.bind {script : Script α} {f : α → Script β} {a : α} {b : β} (h : script.Yields a)
    (hf : (f a).Yields b) : (script >>= f).Yields b := by
  refine ⟨(outcome_bind_of_ok h.outcome).trans hf.outcome,
    (faithful_bind h.outcome).mpr ⟨h.faithful, hf.faithful⟩, ?_⟩
  rw [steps_bind_of_ok h.outcome]
  exact List.forall_mem_append.mpr ⟨h.inside, hf.inside⟩

theorem yields_of_no_steps {script : Script α} {a : α} (houtcome : script.outcome = .ok a)
    (hsteps : script.steps = []) : script.Yields a := by
  refine ⟨houtcome, fun step hstep => ?_, fun step hstep => ?_⟩ <;>
  · rw [hsteps] at hstep
    cases hstep

theorem yields_pure (a : α) : (Pure.pure a : Script α).Yields a := yields_of_no_steps rfl rfl

theorem yields_ofExcept {result : Except Error α} {a : α} (h : result = .ok a) :
    (ofExcept result).Yields a :=
  yields_of_no_steps h rfl

theorem yields_ofCheck {path : String} {result : Except Reason α} {a : α} (h : result = .ok a) :
    (ofCheck path result).Yields a :=
  yields_of_no_steps (outcome_ofCheck_eq_ok.mpr h) (steps_ofCheck _ _)

theorem yields_step (step : Step) (hfaithful : step.Faithful) (hinside : step.Inside) :
    (Script.step step).Yields () := by
  refine ⟨rfl, fun other hother => ?_, fun other hother => ?_⟩
  · rw [List.mem_singleton.mp hother]
    exact hfaithful
  · rw [List.mem_singleton.mp hother]
    exact hinside

theorem yields_event (event : Event) (h : event.Faithful) : (Script.event event).Yields () :=
  yields_step (.record event) h trivial

theorem collectFrom_yields {item : Nat → Script α} (values : List α) :
    ∀ (index : Nat) (results : List α),
      (∀ i a, values[i]? = some a → (item (index + i)).Yields a) →
        (collectFrom item values.length index results).Yields (results.reverse ++ values) := by
  induction values with
  | nil =>
    intro index results _
    rw [List.append_nil]
    exact yields_pure results.reverse
  | cons a rest ih =>
    intro index results h
    rw [List.length_cons, collectFrom_succ]
    refine (h 0 a rfl).bind ?_
    rw [List.append_cons, ← List.reverse_cons]
    refine ih (index + 1) (a :: results) fun i b hb => ?_
    rw [Nat.add_right_comm, Nat.add_assoc]
    exact h (i + 1) b hb

end Script

/-! ## Fields -/

theorem faithful_resolved_float {kind : FloatKind} {x : Double} (path : String)
    (h : kind.Represents x) : (Event.resolved path kind.label (.float x)).Faithful := by
  intro float hlabel
  obtain rfl : kind = float := by
    cases kind <;> cases float <;> first | rfl | exact absurd hlabel (by decide)
  exact ⟨x, rfl, h⟩

namespace Pass

open Script

section

variable {pass : Pass} {scope : Scope} {name : Option String} {default : Option Value}
  {input : Input} {record : Fields Value} {order : ByteOrder}

theorem compute_ofValue (value : Value) :
    pass.compute scope record (.ofValue value) = .pure (.ofValue value) := by
  cases value <;> rfl

theorem provided_yields {value : Value} (h : input.lookup? name = some (.ofValue value)) :
    (pass.provided name scope input record).Yields (some (.ofValue value)) := by
  unfold provided
  rw [h]
  dsimp only
  rw [compute_ofValue]
  exact yields_pure _

theorem resolve_yields {kind : String} {value : Value}
    (h : input.lookup? name = some (.ofValue value))
    (hliteral : Provider.ofValue value = .value value) (hnull : value.isNull = false)
    (hfaithful : (Event.resolved scope.trail kind value).Faithful) :
    (pass.resolve kind name default scope input record).Yields value := by
  have hliteral : (pass.literal name scope input record).Yields (some value) := by
    refine (provided_yields h).bind ?_
    rw [hliteral]
    simp only [Option.bind_some, Provider.toValue?, Option.filter_some, hnull, Bool.not_false,
      if_true]
    exact yields_pure _
  refine hliteral.bind ?_
  exact (yields_event _ hfaithful).bind (yields_pure value)

theorem scalar_yields (kind : String) (bytes : List UInt8) :
    (scalar scope kind bytes).Yields () :=
  (yields_step (.field _ _) trivial trivial).bind (yields_step (.scalar _) trivial trivial)

theorem int_yields {kind : IntKind} {n : Int} (horder : scope.fieldOrder kind.label = .ok order)
    (h : input.lookup? name = some (.ofValue (.int n))) (hn : kind.Holds n) :
    (pass.int kind name default scope input record).Yields (keep name record (.int n)) := by
  refine (yields_ofExcept horder).bind ?_
  refine (resolve_yields h rfl rfl (faithful_resolved_int _ kind _)).bind ?_
  refine (yields_ofCheck (IntKind.check_int hn)).bind ?_
  exact (scalar_yields _ _).bind (yields_pure _)

theorem float_yields {kind : FloatKind} {x : Double}
    (horder : scope.fieldOrder kind.label = .ok order)
    (h : input.lookup? name = some (.ofValue (.float x))) (hx : kind.Represents x) :
    (pass.float kind name default scope input record).Yields (keep name record (.float x)) := by
  refine (yields_ofExcept horder).bind ?_
  refine (resolve_yields h rfl rfl (faithful_resolved_float _ hx)).bind ?_
  refine (yields_ofCheck (FloatKind.check_of_represents hx)).bind ?_
  exact (scalar_yields _ _).bind (yields_pure _)

theorem lengthOf_of_holds {kind : IntKind} {bytes : Nat} (h : kind.Holds bytes) :
    lengthOf kind bytes = .ok bytes := by
  unfold lengthOf
  rw [IntKind.check_int h]

theorem string_yields {kind : IntKind} {text : Node} {content : String}
    (horder : scope.fieldOrder kind.label = .ok order) (htext : text.IsText)
    (h : input.lookup? name = some (.ofValue (.string content)))
    (hcontent : text.Carries kind content) :
    (pass.string kind text name default scope input record).Yields
      (keep name record (.string content)) := by
  obtain ⟨encoding, textName, textDefault, rfl⟩ := htext.eq
  obtain ⟨⟨bytes, hbytes⟩, hlength⟩ := hcontent
  refine (yields_ofExcept horder).bind ?_
  refine (resolve_yields h rfl rfl (faithful_resolved_int _ kind _)).bind ?_
  refine (yields_ofCheck rfl).bind ?_
  refine (yields_ofCheck hbytes).bind ?_
  refine (yields_ofCheck (lengthOf_of_holds hlength)).bind ?_
  refine (scalar_yields _ _).bind ?_
  exact (yields_step (.payload _) trivial trivial).bind (yields_pure _)

/-! ## Sequences -/

theorem countOf_of_holds {kind : IntKind} {n : Int} (h : kind.Holds n) :
    countOf kind (.int n) = .ok n := by
  unfold countOf
  rw [IntKind.check_int h]

theorem supplier_yields {items : List Value}
    (h : input.lookup? name = some (.ofValue (.list items))) :
    (pass.supplier name default scope input record).Yields (.list (Provider.ofItems items)) :=
  (provided_yields h).bind (yields_pure _)

theorem pull_yields {items : List Value} {index : Nat} {item : Value}
    (h : items[index]? = some item) :
    (pass.pull scope (.ofList (Provider.ofItems items)) index).Yields (.ofValue item) := by
  have hitem : (Provider.ofItems items).toArray.getD index .empty = .ofValue item := by
    rw [Provider.ofItems_eq_map, Array.getD_eq_getD_getElem?, List.getElem?_toArray,
      List.getElem?_map, h]
    rfl
  show (pass.compute (scope.item index) []
    ((Provider.ofItems items).toArray.getD index .empty)).Yields _
  rw [hitem, compute_ofValue]
  exact yields_pure _

theorem sequence_yields {kind : IntKind} {elements : List Node} {items : List Value}
    {content : Scope → Provider → Script (List Value × Fields Value)}
    (horder : scope.fieldOrder kind.label = .ok order)
    (h : input.lookup? name = some (.ofValue (.list items))) (hlength : kind.Holds items.length)
    (hcontent : ∀ index, ∀ item ∈ items, ∃ results after,
      (content (scope.item index) (.ofValue item)).Yields (results, after) ∧
        Node.itemValue elements after results = item) :
    (pass.sequence kind elements name default scope input record content).Yields
      (keep name record (.list items)) := by
  have hcount : (Supply.ofList (Provider.ofItems items)).length = items.length := by
    show (Provider.ofItems items).length = _
    rw [Provider.ofItems_eq_map, List.length_map]
  have hchecked :
      countOf kind (Supply.ofList (Provider.ofItems items)).count = .ok items.length := by
    show countOf kind (.int (Supply.ofList (Provider.ofItems items)).length) = _
    rw [hcount, countOf_of_holds hlength]
  refine (yields_ofExcept horder).bind ?_
  refine (supplier_yields h).bind ?_
  refine (yields_pure (Supply.ofList (Provider.ofItems items))).bind ?_
  refine (yields_ofCheck hchecked).bind ?_
  refine (scalar_yields _ _).bind ?_
  rw [hcount]
  refine (collectFrom_yields items 0 [] fun index item hitem => ?_).bind (yields_pure _)
  rw [Nat.zero_add]
  obtain ⟨results, after, hyields, rfl⟩ := hcontent index item (List.mem_of_getElem? hitem)
  refine (pull_yields hitem).bind ?_
  refine hyields.bind ?_
  exact (yields_event (.itemDone _ _) trivial).bind (yields_pure _)

end

end Pass

end Write

end ByteLayout
