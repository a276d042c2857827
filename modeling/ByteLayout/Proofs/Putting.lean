import ByteLayout.Proofs.Yielding

/-!
# Scripts that put bytes

A script **puts** bytes (`Script.Puts`) if it yields its result and has just these bytes for the
open file. What is silent puts none, a field puts the bytes of its value, and a sequence puts its
count and then the bytes of its items, one after the other.
-/

namespace ByteLayout.Write

variable {α β : Type}

/-- A script yields its result and has these bytes for the open file. -/
structure Script.Puts (script : Script α) (a : α) (bytes : List UInt8) : Prop where
  yields : script.Yields a
  content : Step.content [] script.steps = bytes

namespace Script

theorem Puts.bind {script : Script α} {f : α → Script β} {a : α} {b : β} {xs ys : List UInt8}
    (h : script.Puts a xs) (hf : (f a).Puts b ys) : (script >>= f).Puts b (xs ++ ys) := by
  refine ⟨h.yields.bind hf.yields, ?_⟩
  rw [steps_bind_of_ok h.yields.outcome, Step.content_append_of_inside _ h.yields.inside,
    h.content, hf.content]

/-- What only writes events down puts nothing. -/
theorem Yields.puts {script : Script α} {a : α} (h : script.Yields a) (hsilent : script.Silent) :
    script.Puts a [] := by
  refine ⟨h, ?_⟩
  unfold Silent at hsilent
  generalize script.steps = steps at hsilent
  induction steps with
  | nil => rfl
  | cons step rest ih =>
    obtain ⟨event, rfl, -⟩ := hsilent step List.mem_cons_self
    exact ih fun other hother => hsilent other (List.mem_cons_of_mem _ hother)

/-- What is silent comes before the bytes. -/
theorem Yields.then {script : Script α} {f : α → Script β} {a : α} {b : β} {bytes : List UInt8}
    (h : script.Yields a) (hsilent : script.Silent) (hf : (f a).Puts b bytes) :
    (script >>= f).Puts b bytes :=
  (h.puts hsilent).bind hf

theorem puts_pure (a : α) : (Pure.pure a : Script α).Puts a [] := ⟨yields_pure a, rfl⟩

/-- A result is made of the last one. -/
theorem Puts.map {script : Script α} {a : α} {bytes : List UInt8} (h : script.Puts a bytes)
    (f : α → β) : (script >>= fun a => Pure.pure (f a)).Puts (f a) bytes := by
  have hbind : (script >>= fun a => Pure.pure (f a)).Puts (f a) (bytes ++ []) :=
    h.bind (puts_pure (f a))
  rwa [List.append_nil] at hbind

theorem collectFrom_puts {item : Nat → Script α} (values : List α) :
    ∀ (chunks : List (List UInt8)) (index : Nat) (results : List α),
      values.length = chunks.length →
      (∀ i a bytes, values[i]? = some a → chunks[i]? = some bytes →
        (item (index + i)).Puts a bytes) →
      (collectFrom item values.length index results).Puts (results.reverse ++ values)
        chunks.flatten := by
  induction values with
  | nil =>
    intro chunks index results hlength _
    obtain rfl := List.eq_nil_of_length_eq_zero hlength.symm
    rw [List.append_nil]
    exact puts_pure results.reverse
  | cons a rest ih =>
    rintro (_ | ⟨bytes, chunks⟩) index results hlength h
    · cases hlength
    rw [List.length_cons, collectFrom_succ, List.flatten_cons]
    refine (h 0 a bytes rfl rfl).bind ?_
    rw [List.append_cons, ← List.reverse_cons]
    refine ih chunks (index + 1) (a :: results) (Nat.succ.inj hlength) fun i b more hb hmore => ?_
    rw [Nat.add_right_comm, Nat.add_assoc]
    exact h (i + 1) b more hb hmore

end Script

namespace Pass

open Script

variable {pass : Pass} {scope : Scope} {name : Option String} {default : Option Value}
  {input : Input} {record : Fields Value} {order : ByteOrder}

/-! ## Fields -/

theorem scalar_puts (kind : String) (bytes : List UInt8) :
    (scalar scope kind bytes).Puts () bytes :=
  ⟨scalar_yields kind bytes, List.append_nil bytes⟩

/-- The byte order of a field puts nothing. -/
theorem Puts.after_order {kind : String} {f : ByteOrder → Script β} {b : β} {bytes : List UInt8}
    (horder : scope.fieldOrder kind = .ok order) (hf : (f order).Puts b bytes) :
    (ofExcept (scope.fieldOrder kind) >>= f).Puts b bytes :=
  (yields_ofExcept horder).then (silent_of_no_steps rfl) hf

/-- A check puts nothing. -/
theorem Puts.after_check {path : String} {result : Except Reason α} {a : α} {f : α → Script β}
    {b : β} {bytes : List UInt8} (h : result = .ok a) (hf : (f a).Puts b bytes) :
    (ofCheck path result >>= f).Puts b bytes :=
  (yields_ofCheck h).then (silent_of_no_steps (steps_ofCheck _ _)) hf

theorem int_puts {kind : IntKind} {n : Int} (horder : scope.fieldOrder kind.label = .ok order)
    (h : input.lookup? name = some (.ofValue (.int n))) (hn : kind.Holds n) :
    (pass.int kind name default scope input record).Puts (keep name record (.int n))
      (kind.encode order n) := by
  refine Puts.after_order horder ?_
  refine (resolve_yields h rfl rfl (faithful_resolved_int _ kind _)).then
    (pass.silent_resolve _ _ _ _ _ _) ?_
  refine Puts.after_check (IntKind.check_int hn) ?_
  exact (scalar_puts _ _).map fun _ => _

theorem float_puts {kind : FloatKind} {x : Double}
    (horder : scope.fieldOrder kind.label = .ok order)
    (h : input.lookup? name = some (.ofValue (.float x))) (hx : kind.Represents x) :
    (pass.float kind name default scope input record).Puts (keep name record (.float x))
      (kind.encode order x) := by
  refine Puts.after_order horder ?_
  refine (resolve_yields h rfl rfl (faithful_resolved_float _ hx)).then
    (pass.silent_resolve _ _ _ _ _ _) ?_
  refine Puts.after_check (FloatKind.check_of_represents hx) ?_
  exact (scalar_puts _ _).map fun _ => _

theorem string_puts {kind : IntKind} {encoding : TextEncoding} {textName : Option String}
    {textDefault : Option Value} {content : String} {bytes : List UInt8}
    (horder : scope.fieldOrder kind.label = .ok order)
    (h : input.lookup? name = some (.ofValue (.string content)))
    (hbytes : encoding.encode content = .ok bytes) (hlength : kind.Holds bytes.length) :
    (pass.string kind (.mk (.text encoding) textName textDefault .none) name default scope input
        record).Puts (keep name record (.string content))
      (kind.encode order bytes.length ++ bytes) := by
  have htoBytes : encoding.toBytes content = .ok bytes := by
    unfold TextEncoding.toBytes
    rw [hbytes]
  have hcount := TextEncoding.length_encode hbytes
  rw [hcount] at hlength ⊢
  refine Puts.after_order horder ?_
  refine (resolve_yields h rfl rfl (faithful_resolved_int _ kind _)).then
    (pass.silent_resolve _ _ _ _ _ _) ?_
  refine Puts.after_check rfl ?_
  refine Puts.after_check htoBytes ?_
  refine Puts.after_check (lengthOf_of_holds hlength) ?_
  refine (scalar_puts _ _).bind ?_
  have hpayload : (step (.payload bytes)).Puts () bytes :=
    ⟨yields_step (.payload bytes) trivial trivial, List.append_nil bytes⟩
  exact hpayload.map fun _ => _

/-! ## Sequences -/

/-- **A sequence puts its count, and then its items one after the other.** -/
theorem sequence_puts {kind : IntKind} {elements : List Node} {items : List Value}
    {chunks : List (List UInt8)}
    {content : Scope → Provider → Script (List Value × Fields Value)}
    (horder : scope.fieldOrder kind.label = .ok order)
    (h : input.lookup? name = some (.ofValue (.list items))) (hholds : kind.Holds items.length)
    (hlength : items.length = chunks.length)
    (hcontent : ∀ index item bytes, items[index]? = some item → chunks[index]? = some bytes →
      ∃ results after, (content (scope.item index) (.ofValue item)).Puts (results, after) bytes ∧
        Node.itemValue elements after results = item) :
    (pass.sequence kind elements name default scope input record content).Puts
      (keep name record (.list items)) (kind.encode order items.length ++ chunks.flatten) := by
  have hcount : (Supply.ofList (Provider.ofItems items)).length = items.length := by
    show (Provider.ofItems items).length = _
    rw [Provider.ofItems_eq_map, List.length_map]
  have hchecked :
      countOf kind (Supply.ofList (Provider.ofItems items)).count = .ok items.length := by
    show countOf kind (.int (Supply.ofList (Provider.ofItems items)).length) = _
    rw [hcount, countOf_of_holds hholds]
  refine Puts.after_order horder ?_
  refine (supplier_yields h).then (pass.silent_supplier _ _ _ _ _) ?_
  refine (yields_pure (Supply.ofList (Provider.ofItems items))).then (silent_of_no_steps rfl) ?_
  refine Puts.after_check hchecked ?_
  refine (scalar_puts _ _).bind ?_
  rw [hcount]
  refine (collectFrom_puts items chunks 0 [] hlength fun index item bytes hitem hbytes => ?_).map _
  rw [Nat.zero_add]
  obtain ⟨results, after, hputs, rfl⟩ := hcontent index item bytes hitem hbytes
  refine (pull_yields hitem).then (pass.silent_pull _ _ _) ?_
  have hdone : (event (.itemDone scope.trail index)).Puts () [] :=
    (yields_event (.itemDone scope.trail index) trivial).puts (silent_event ⟨rfl, rfl⟩)
  rw [← List.append_nil bytes]
  exact hputs.bind (hdone.map fun _ => Node.itemValue elements after results)

end Pass

end ByteLayout.Write
