import ByteLayout.Proofs.Depth
import ByteLayout.Proofs.Trust

/-!
# Items in turn

A lazy sequence makes its items one by one, and what makes them is the caller's. So it matters when
an item is pulled: not before the count is accepted, and not before all items ahead of it are
written. The sinks have their say in this, as any of them may fail in the midst of an item.

**Step (`itemOf_pulls`).** Whatever the sinks do, to write an item is to pull it once.

**Run (`playAll_collect`).** Of several scripts as many are begun as go well, and one more if it
fails.

**Theorem (`Schema.pulled_in_turn`).** Where a pass comes to a sequence that is given a lazy one,
the generator is called once, and items are pulled in turn.
-/

namespace ByteLayout

/-! ## What is told of a lazy sequence -/

namespace Event

variable (path : String)

/-- What the generator of the lazy sequence at a path was given, if it was called. -/
def generatedAt? : Event → Option FieldContext
  | call (.generate context) => if context.path = path then some context else none
  | _ => none

/-- The number of the item that was pulled from the lazy sequence at a path. -/
def pulledAt? : Event → Option Nat
  | pulled other index => if other = path then some index else none
  | _ => none

theorem attentive_generatedAt? : Attentive (generatedAt? path) := by
  intro event h
  cases event with
  | call made => cases h
  | _ => rfl

theorem attentive_pulledAt? : Attentive (pulledAt? path) := by
  intro event h
  cases event with
  | pulled other index => cases h
  | _ => rfl

theorem introspective_generatedAt? : Introspective (generatedAt? path) := by
  intro event h
  cases event with
  | call made => exact absurd trivial h
  | _ => rfl

theorem introspective_pulledAt? : Introspective (pulledAt? path) := by
  intro event h
  cases event with
  | pulled other index => exact absurd trivial h
  | _ => rfl

end Event

namespace Journal

/-- What the generator of the lazy sequence at a path was given whenever it was called. -/
def generations (path : String) (journal : Journal) : List FieldContext :=
  journal.view (Event.generatedAt? path)

/-- The numbers of the items pulled from the lazy sequence at a path, in order. -/
def pulls (path : String) (journal : Journal) : List Nat := journal.view (Event.pulledAt? path)

end Journal

namespace Write

variable {α β : Type}

/-! ## Scripts that do not tell of it -/

namespace Script

variable {path : String} {script : Script α}

/-- What only tells of longer paths does not tell of this one. -/
theorem LazyBelow.unshown_generatedAt? (h : script.LazyBelow path.length) :
    ∀ step ∈ script.steps, step.shown? (Event.generatedAt? path) = none := by
  intro step hstep
  have hbelow := h step hstep
  cases step with
  | record event =>
    cases event with
    | call made =>
      cases made with
      | generate context =>
        have hlonger : path.length < context.path.length := hbelow context.path rfl
        exact if_neg fun heq => (heq ▸ hlonger).false
      | _ => rfl
    | _ => rfl
  | _ => rfl

theorem LazyBelow.unshown_pulledAt? (h : script.LazyBelow path.length) :
    ∀ step ∈ script.steps, step.shown? (Event.pulledAt? path) = none := by
  intro step hstep
  have hbelow := h step hstep
  cases step with
  | record event =>
    cases event with
    | pulled other index =>
      have hlonger : path.length < other.length := hbelow other rfl
      exact if_neg fun heq => (heq ▸ hlonger).false
    | _ => rfl
  | _ => rfl

end Script

/-! ## Runs of several scripts -/

namespace Stage

variable {setup : Setup}

/-- **Of several scripts as many are begun as go well, and one more if it fails.** -/
theorem playAll_collect (setup : Setup) (begun : Stage) (item : Nat → Script α) (count : Nat) :
    ∃ taken ≤ count,
      begun.playAll setup (.collect count item) = begun.playAll setup (.collect taken item) ∧
      (∀ i < taken, ∃ stage values,
        begun.playAll setup (.collect i item) = (stage, .ok values)) ∧
      ∀ last values, begun.playAll setup (.collect count item) = (last, .ok values) →
        taken = count := by
  induction count with
  | zero => exact ⟨0, Nat.le_refl 0, rfl, fun i hi => absurd hi (Nat.not_lt_zero i), fun _ _ _ =>
      rfl⟩
  | succ count ih =>
    obtain ⟨taken, htaken, hplay, hearlier, hall⟩ := ih
    rcases hcount : begun.playAll setup (.collect count item) with ⟨stage, values | values⟩
    · have hfails : begun.playAll setup (.collect (count + 1) item) = (stage, .error values) := by
        rw [Script.collect_succ, playAll_bind, hcount]
      refine ⟨taken, Nat.le_succ_of_le htaken, ?_, hearlier, fun last found hfound => ?_⟩
      · rw [hfails, ← hplay, hcount]
      · rw [hfails] at hfound
        cases (Prod.mk.inj hfound).2
    · obtain rfl := hall stage values hcount
      refine ⟨taken + 1, Nat.le_refl _, rfl, fun i hi => ?_, fun _ _ _ => rfl⟩
      rcases Nat.lt_succ_iff_lt_or_eq.mp hi with hi | rfl
      · exact hearlier i hi
      · exact ⟨stage, values, hcount⟩

/-- If several scripts fail where those ahead of the last do not, it is the last that fails. -/
theorem playAll_collect_fails {begun last : Stage} {item : Nat → Script α} {taken : Nat}
    {error : Error} (hplay : begun.playAll setup (.collect taken item) = (last, .error error))
    (h : ∀ i < taken, ∃ stage values,
      begun.playAll setup (.collect i item) = (stage, .ok values)) :
    ∃ i stage values, taken = i + 1 ∧ begun.playAll setup (.collect i item) = (stage, .ok values) ∧
      stage.playAll setup (item i) = (last, .error error) := by
  cases taken with
  | zero => cases (Prod.mk.inj hplay).2
  | succ i =>
    obtain ⟨stage, values, hearlier⟩ := h i (Nat.lt_succ_self i)
    refine ⟨i, stage, values, rfl, hearlier, ?_⟩
    rw [Script.collect_succ, playAll_bind, hearlier] at hplay
    change stage.playAll setup (item i >>= _) = _ at hplay
    rw [playAll_bind] at hplay
    rcases hitem : stage.playAll setup (item i) with ⟨later, found | a⟩
    · rw [hitem] at hplay
      obtain ⟨rfl, hfound⟩ := Prod.mk.inj hplay
      rw [Except.error.inj hfound]
    · rw [hitem] at hplay
      cases (Prod.mk.inj hplay).2

/-- Where several scripts go well, each of them does. -/
theorem playAll_collect_eq_ok {begun last : Stage} {item : Nat → Script α} {count : Nat}
    {values : List α} (hplay : begun.playAll setup (.collect count item) = (last, .ok values)) :
    values.length = count ∧ ∀ index value, values[index]? = some value →
      ∃ before after, begun.playAll setup (.collect index item) =
          (before, .ok (values.take index)) ∧
        before.playAll setup (item index) = (after, .ok value) := by
  induction count generalizing last values with
  | zero =>
    obtain ⟨-, hvalues⟩ := Prod.mk.inj hplay
    obtain rfl := Except.ok.inj hvalues
    exact ⟨rfl, fun _ _ hvalue => nomatch hvalue⟩
  | succ count ih =>
    rw [Script.collect_succ] at hplay
    obtain ⟨before, all, hall, hplay⟩ := playAll_bind_eq_ok.mp hplay
    obtain ⟨after, a, ha, hplay⟩ := playAll_bind_eq_ok.mp hplay
    obtain ⟨-, hvalues⟩ := Prod.mk.inj hplay
    obtain rfl := Except.ok.inj hvalues
    obtain ⟨hlength, hearlier⟩ := ih hall
    refine ⟨by rw [List.length_append, hlength]; rfl, fun index value hvalue => ?_⟩
    rcases Nat.lt_or_ge index all.length with hindex | hindex
    · rw [List.getElem?_append_left hindex] at hvalue
      rw [List.take_append_of_le_length (Nat.le_of_lt hindex)]
      exact hearlier index value hvalue
    · obtain ⟨hend, rfl⟩ : index - all.length = 0 ∧ a = value := by
        rw [List.getElem?_append_right hindex, List.getElem?_singleton] at hvalue
        simpa using hvalue
      obtain rfl : index = count := by omega
      rw [List.take_left' hlength]
      exact ⟨before, after, hall, ha⟩

/-- If every script leaves its number behind, several leave theirs in order. -/
theorem view_playAll_collect {look : Event → Option Nat} {item : Nat → Script α}
    (hitem : ∀ i (stage : Stage), (stage.playAll setup (item i)).1.journal.view look =
      stage.journal.view look ++ [i]) (begun : Stage) : ∀ taken : Nat,
      (∀ i < taken, ∃ stage values, begun.playAll setup (.collect i item) = (stage, .ok values)) →
      (begun.playAll setup (.collect taken item)).1.journal.view look =
        begun.journal.view look ++ List.range taken
  | 0, _ => (List.append_nil _).symm
  | taken + 1, h => by
    obtain ⟨stage, values, hplay⟩ := h taken (Nat.lt_succ_self taken)
    have hearlier := view_playAll_collect hitem begun taken fun i hi => h i (Nat.lt_succ_of_lt hi)
    have hlast := hitem taken stage
    rw [hplay] at hearlier
    rw [Script.collect_succ, playAll_bind, hplay]
    show (stage.playAll setup (item taken >>= fun a =>
      Pure.pure (values ++ [a]))).1.journal.view look = _
    rw [playAll_map, hlast, show stage.journal.view look = _ from hearlier, List.range_succ,
      List.append_assoc]

end Stage

/-! ## Sequences in two parts -/

namespace Pass

open Script

/-- What a list supplies for an item. -/
theorem Supply.item_ofList (items : List Provider) (index : Nat) :
    (Supply.ofList items).item index = ⟨items[index]?.getD .empty, []⟩ := by
  show (⟨items.toArray.getD index .empty, []⟩ : Noted Provider) = _
  rw [Array.getD_eq_getD_getElem?, List.getElem?_toArray]

variable (pass : Pass) (kind : IntKind) (elements : List Node) (name : Option String)
  (default : Option Value) (scope : Scope) (input : Input) (record : Fields Value)

/-- Finds what a sequence is written from, and the bytes of its count. -/
def declared : Script (Supply × List UInt8) := do
  let order ← .ofExcept (scope.fieldOrder kind.label)
  let provider ← pass.supplier name default scope input record
  let supply ← pass.supply scope record provider
  let count ← .ofCheck scope.trail (countOf kind supply.count)
  return (supply, kind.encode order count)

/-- Begins a sequence: its count is checked and written. -/
def opening : Script Supply := do
  let (supply, bytes) ← pass.declared kind name default scope input record
  scalar scope kind.label bytes
  return supply

/-- The script of an item of a sequence. -/
def itemOf (visit : Visit) (supply : Supply) (index : Nat) : Script Value :=
  pass.writeItem elements (visit.scope.field visit.node.label) supply
    (fun scope item => pass.walkAll (visit.site.below .element visit.node) scope
      (itemInput elements.length item) 0 [] elements) index

/-- A sequence is begun, and then its items are written. -/
theorem sequence_eq (content : Scope → Provider → Script (List Value × Fields Value)) :
    pass.sequence kind elements name default scope input record content =
      pass.opening kind name default scope input record >>= fun supply =>
        .collect supply.length (pass.writeItem elements scope supply content) >>= fun items =>
          Pure.pure (keep name record (.list items)) := by
  unfold opening declared
  simp only [bind_assoc]
  rfl

theorem scriptAt_sequence {visit : Visit}
    (hnode : visit.node = .mk (.int kind) name default (.sequence elements)) :
    pass.scriptAt visit =
      pass.opening kind name default (visit.scope.field visit.node.label) visit.input
          visit.record >>= fun supply =>
        .collect supply.length (pass.itemOf elements visit supply) >>= fun items =>
          Pure.pure (keep name visit.record (.list items)) := by
  obtain ⟨site, scope, input, record, node⟩ := visit
  obtain rfl : node = .mk (.int kind) name default (.sequence elements) := hnode
  rw [scriptAt, walk]
  exact pass.sequence_eq kind elements name default _ input record _

/-! ## Beginning a sequence -/

/-- What a sequence declares when it can be written. -/
theorem declared_eq_ok {found : Supply × List UInt8}
    (h : (pass.declared kind name default scope input record).outcome = .ok found) :
    ∃ order provider n, scope.fieldOrder kind.label = .ok order ∧
      (pass.supplier name default scope input record).outcome = .ok provider ∧
      (pass.supply scope record provider).outcome = .ok found.1 ∧
      countOf kind found.1.count = .ok n ∧ found.2 = kind.encode order n := by
  obtain ⟨order, horder, h⟩ := outcome_bind_eq_ok.mp h
  obtain ⟨provider, hprovider, h⟩ := outcome_bind_eq_ok.mp h
  obtain ⟨supply, hsupply, h⟩ := outcome_bind_eq_ok.mp h
  obtain ⟨n, hn, h⟩ := outcome_bind_eq_ok.mp h
  obtain rfl := Except.ok.inj h
  exact ⟨order, provider, n, horder, hprovider, hsupply, outcome_ofCheck_eq_ok.mp hn, rfl⟩

theorem silent_declared : Silent (pass.declared kind name default scope input record) := by
  refine (silent_of_no_steps rfl).bind fun order _ => ?_
  refine (pass.silent_supplier name default scope input record).bind fun provider _ => ?_
  refine (pass.silent_supply scope record provider).bind fun supply _ => ?_
  exact (silent_of_no_steps (steps_ofCheck _ _)).bind fun _ _ => silent_of_no_steps rfl

theorem opening_closed {P : (α : Type) → Script α → Prop} (h : Script.Closed P) :
    P Supply (pass.opening kind name default scope input record) := by
  refine h.bind (h.bind (h.done _) fun order => ?_) fun found =>
    h.bind (scalar_closed h scope _ _) fun _ => h.pure _
  refine h.bind (pass.supplier_closed h name default scope input record) fun provider => ?_
  refine h.bind (pass.supply_closed h scope record provider) fun supply => ?_
  exact h.bind (h.ofCheck _ _) fun _ => h.pure _

variable {pass kind name default scope input record}

/-- What was begun has its count written, and nothing else. -/
theorem content_opening {supply : Supply}
    (h : (pass.opening kind name default scope input record).outcome = .ok supply) :
    ∃ order provider n, scope.fieldOrder kind.label = .ok order ∧
      (pass.supplier name default scope input record).outcome = .ok provider ∧
      (pass.supply scope record provider).outcome = .ok supply ∧
      countOf kind supply.count = .ok n ∧
      Step.content [] (pass.opening kind name default scope input record).steps =
        kind.encode order n := by
  obtain ⟨found, hfound, hrest⟩ := outcome_bind_eq_ok.mp h
  obtain ⟨order, provider, n, horder, hprovider, hsupply, hn, hbytes⟩ :=
    pass.declared_eq_ok _ _ _ _ _ _ hfound
  obtain rfl : found.1 = supply := Except.ok.inj hrest
  refine ⟨order, provider, n, horder, hprovider, hsupply, hn, ?_⟩
  unfold opening
  rw [steps_bind_of_ok hfound, Step.content_silent (pass.silent_declared _ _ _ _ _ _), ← hbytes]
  exact List.append_nil _

/-- To declare a lazy sequence its generator is called, and its count is checked. -/
theorem declared_lazy {generate : FieldContext → Noted (LazySequence Provider)} {order : ByteOrder}
    (horder : scope.fieldOrder kind.label = .ok order)
    (hsupplier : (pass.supplier name default scope input record).outcome = .ok (.lazy generate)) :
    let context := scope.context pass.user record
    let sequence := (generate context).value
    let declared := pass.declared kind name default scope input record
    (declared.outcome = match countOf kind sequence.count with
      | .ok n => .ok (.ofLazy sequence, kind.encode order n)
      | .error reason => .error (.invalidValue scope.trail reason)) ∧
    declared.steps.filterMap (Step.shown? (Event.generatedAt? scope.trail)) = [context] ∧
    declared.steps.filterMap (Step.shown? (Event.pulledAt? scope.trail)) = [] := by
  intro context sequence declared
  obtain ⟨hsupply, hmade⟩ : _ = Except.ok (Supply.ofLazy sequence) ∧ _ := pass.supply_lazy generate
  have horder : (Script.ofExcept (scope.fieldOrder kind.label)).outcome = .ok order := horder
  have hbelow : (pass.supplier name default scope input record).LazyBelow scope.trail.length :=
    pass.lazyBelow_supplier name default scope input record
  have hnotes : (Script.notes (generate context).notes).LazyBelow scope.trail.length :=
    lazyBelow_notes _
  have hcheck : ∀ supply : Supply, Script.steps (do
      let count ← .ofCheck scope.trail (countOf kind supply.count)
      return (supply, kind.encode order count)) = [] := by
    intro supply
    cases countOf kind supply.count <;> rfl
  have hsteps : declared.steps = (pass.supplier name default scope input record).steps ++
      (.record (.call (.generate context)) :: (Script.notes (generate context).notes).steps ++
        [.record (.generated scope.trail sequence.count sequence.length)]) := by
    show Script.steps (.ofExcept (scope.fieldOrder kind.label) >>= _) = _
    rw [steps_bind_of_ok horder, steps_ofExcept, List.nil_append, steps_bind_of_ok hsupplier,
      steps_bind_of_ok hsupply, hcheck, List.append_nil, hmade, steps_called, steps_notes]
  refine ⟨?_, ?_, ?_⟩
  · show Script.outcome (.ofExcept (scope.fieldOrder kind.label) >>= _) = _
    rw [outcome_bind_of_ok horder, outcome_bind_of_ok hsupplier, outcome_bind_of_ok hsupply]
    show Script.outcome (.ofCheck scope.trail (countOf kind sequence.count) >>= _) = _
    cases countOf kind sequence.count <;> rfl
  · have hcall : (Step.record (.call (.generate context))).shown?
        (Event.generatedAt? scope.trail) = some context := if_pos rfl
    rw [hsteps, List.filterMap_append, List.filterMap_eq_nil_iff.mpr hbelow.unshown_generatedAt?,
      List.nil_append, List.cons_append, List.filterMap_cons, hcall, List.filterMap_append,
      List.filterMap_eq_nil_iff.mpr hnotes.unshown_generatedAt?]
    rfl
  · rw [hsteps, List.filterMap_append, List.filterMap_eq_nil_iff.mpr hbelow.unshown_pulledAt?,
      List.nil_append, List.cons_append, List.filterMap_cons, List.filterMap_append,
      List.filterMap_eq_nil_iff.mpr hnotes.unshown_pulledAt?]
    rfl

/-! ## Items -/

section Items

variable (pass : Pass) (elements : List Node) (sequence : LazySequence Provider) {visit : Visit}

theorem itemOf_inside {supply : Supply} (hfile : visit.scope.file.isSome = true) (index : Nat) :
    (pass.itemOf elements visit supply index).Inside :=
  writeItem_inside (fun _ _ hinner => walkAll_closed pass.inside_closed _
    (hinner ▸ hfile) _ 0 [] elements) index

theorem itemOf_own {supply : Supply} (index : Nat) :
    (pass.itemOf elements visit supply index).Own := by
  have hclosed := Script.own_closed
  refine hclosed.bind (pass.pull_closed hclosed _ supply index) fun item => ?_
  refine hclosed.bind (walkAll_closed pass.own_closed _ trivial _ 0 [] elements) fun walked => ?_
  exact hclosed.bind (hclosed.event trivial) fun _ => hclosed.pure _

theorem itemOf_orderly {supply : Supply} (hfile : visit.scope.file.isSome = true) (index : Nat) :
    Orderly true true (pass.itemOf elements visit supply index) := by
  refine (pass.silent_pull _ supply index).orderly.bind fun item _ => ?_
  have hcontent := pass.walkAll_orderly (visit.site.below .element visit.node)
    ((visit.scope.field visit.node.label).item index) (itemInput elements.length item) 0 [] elements
  rw [show ((visit.scope.field visit.node.label).item index).file = visit.scope.file from rfl,
    hfile] at hcontent
  exact hcontent.bind fun _ _ => (orderly_event _).bind fun _ _ => orderly_of_no_steps rfl

/-- An item of a lazy sequence is pulled first, and all else that it tells of lies deeper. -/
theorem itemOf_lazy (hfile : visit.scope.file.isSome = true) (index : Nat) :
    ∃ rest : Script Value, pass.itemOf elements visit (.ofLazy sequence) index =
        .ask (.record (.pulled (visit.scope.field visit.node.label).trail index)) (fun _ => rest) ∧
      rest.LazyBelow (visit.scope.field visit.node.label).trail.length := by
  let here := visit.scope.field visit.node.label
  have hinner : (here.item index).file.isSome = true := hfile
  refine ⟨_, rfl, ?_⟩
  refine LazyBelow.bind (LazyBelow.bind (lazyBelow_notes _) fun _ =>
    pass.lazyBelow_compute _ _ _) fun item => ?_
  refine (pass.walkAll_lazyBelow _ hinner (Nat.le_of_lt (here.length_trail_item index)) _ 0 []
    elements).bind fun walked => ?_
  exact (lazyBelow_eager rfl).map _

/-- **To write an item is to pull it once**, whatever the sinks do. -/
theorem itemOf_pulls (hfile : visit.scope.file.isSome = true) (setup : Setup) (index : Nat)
    (stage : Stage) :
    (stage.playAll setup (pass.itemOf elements visit (.ofLazy sequence) index)).1.journal.pulls
        (visit.scope.field visit.node.label).trail =
      stage.journal.pulls (visit.scope.field visit.node.label).trail ++ [index] := by
  obtain ⟨rest, hitem, hbelow⟩ := pass.itemOf_lazy elements sequence hfile index
  rw [hitem]
  refine (Stage.view_playAll_of_unshown (Event.attentive_pulledAt? _)
    (Event.introspective_pulledAt? _) hbelow.unshown_pulledAt? _).trans ?_
  have hpulled : Event.pulledAt? (visit.scope.field visit.node.label).trail
      (.pulled (visit.scope.field visit.node.label).trail index) = some index := if_pos rfl
  refine (Journal.view_append _ stage.journal _).trans (congrArg (_ ++ ·) ?_)
  rw [List.filterMap_cons, hpulled]
  rfl

/-- No item calls the generator of its own sequence. -/
theorem itemOf_unshown (hfile : visit.scope.file.isSome = true) (index : Nat) :
    ∀ step ∈ (pass.itemOf elements visit (.ofLazy sequence) index).steps,
      step.shown? (Event.generatedAt? (visit.scope.field visit.node.label).trail) = none := by
  obtain ⟨rest, hitem, hbelow⟩ := pass.itemOf_lazy elements sequence hfile index
  rw [hitem]
  exact List.forall_mem_cons.mpr ⟨rfl, hbelow.unshown_generatedAt?⟩

end Items

end Pass

/-! ## Playing a sequence -/

namespace Script

/-- What is listed was written one behind the other. -/
theorem content_collect {item : Nat → Script α} (hinside : ∀ index, (item index).Inside) :
    ∀ (count : Nat) (values : List α), (collect count item).outcome = .ok values →
      Step.content [] (collect count item).steps =
        (List.range count).flatMap fun index => Step.content [] (item index).steps
  | 0, _, _ => rfl
  | count + 1, values, h => by
    rw [collect_succ] at h ⊢
    obtain ⟨all, hall, h⟩ := outcome_bind_eq_ok.mp h
    obtain ⟨a, ha, -⟩ := outcome_bind_eq_ok.mp h
    have hearlier : (collect count item).Inside :=
      inside_closed.collectFrom hinside count 0 []
    rw [steps_bind_of_ok hall, steps_bind_of_ok ha, Step.content_append_of_inside _ hearlier,
      content_collect hinside count all hall, Step.content_append_of_inside _ (hinside count),
      List.range_succ, List.flatMap_append, List.flatMap_singleton]
    exact congrArg (_ ++ ·) (List.append_nil _)

end Script

namespace Stage

variable {setup : Setup} {path : String} {begun stage : Stage} {item : Nat → Script α}
  {count taken : Nat} {inFile last : Bool} {lives : List Life} {offers : List Nat}

/-- Of `count` items `taken` are begun, in turn. -/
structure Turns (setup : Setup) (path : String) (begun : Stage) (item : Nat → Script α)
    (count taken : Nat) : Prop where
  le : taken ≤ count
  /-- When an item is begun, all ahead of it were pulled, and their bytes accepted, and it was not
  pulled. -/
  turn : ∀ i < taken, ∃ stage values, begun.playAll setup (.collect i item) = (stage, .ok values) ∧
    stage.journal.pulls path = begun.journal.pulls path ++ List.range i ∧
    stage.accepted = begun.accepted ++
      (List.range i).flatMap fun j => Step.content [] (item j).steps
  /-- Behind an item that fails no other is begun. -/
  ends : begun.playAll setup (.collect count item) = begun.playAll setup (.collect taken item)
  /-- If one fails, it is the last that is begun. -/
  fails : ∀ last error, begun.playAll setup (.collect count item) = (last, .error error) →
    ∃ i stage values, taken = i + 1 ∧ begun.playAll setup (.collect i item) = (stage, .ok values) ∧
      stage.playAll setup (item i) = (last, .error error)
  /-- If none fails, all are begun. -/
  all : ∀ last values, begun.playAll setup (.collect count item) = (last, .ok values) →
    taken = count
  pulls : (begun.playAll setup (.collect count item)).1.journal.pulls path =
    begun.journal.pulls path ++ List.range taken

section Opening

variable {pass : Pass} {kind : IntKind} {name : Option String} {default : Option Value}
  {scope : Scope} {input : Input} {record : Fields Value}

/-- Without a byte order nothing is looked up. -/
theorem playAll_opening_unordered {error : Error}
    (h : scope.fieldOrder kind.label = .error error) (stage : Stage) :
    stage.playAll setup (pass.opening kind name default scope input record) =
      (stage, .error error) := by
  unfold Pass.opening Pass.declared
  rw [h]
  rfl

/-- A refused count ends the sequence. -/
theorem playAll_opening_refused {error : Error} {opened : Except Error Pass.Supply}
    (hplay : stage.playAll setup (pass.opening kind name default scope input record) =
      (begun, opened))
    (h : (pass.declared kind name default scope input record).outcome = .error error) :
    opened = .error error := by
  obtain ⟨later, hdeclared, -⟩ :=
    playAll_silent (pass.silent_declared kind name default scope input record) stage
  rw [Pass.opening, playAll_bind, hdeclared, h] at hplay
  exact (Prod.mk.inj hplay).2.symm

/-- What is seen while a sequence is begun. -/
theorem view_opening {opened : Except Error Pass.Supply}
    (hplay : stage.playAll setup (pass.opening kind name default scope input record) =
      (begun, opened)) {look : Event → Option β} (hlook : Attentive look)
    (hown : Introspective look) :
    begun.journal.view look = stage.journal.view look ++
      (pass.declared kind name default scope input record).steps.filterMap (Step.shown? look) := by
  have hunshown : ∀ found : Pass.Supply × List UInt8,
      ∀ step ∈ Script.steps (Pass.scalar scope kind.label found.2 >>= fun _ =>
        Pure.pure found.1), step.shown? look = none := fun found =>
    List.forall_mem_cons.mpr ⟨rfl, List.forall_mem_singleton.mpr rfl⟩
  refine (congrArg (fun played => played.1.journal.view look) hplay).symm.trans ?_
  exact view_playAll_after_silent hlook hown
    (pass.silent_declared kind name default scope input record) hunshown stage

/-- **What is begun is a sequence in a file, and its count is accepted.** -/
theorem Serves.opening (h : stage.Serves inFile lives offers) (hcapacity : 8 ≤ setup.capacity)
    {f : Pass.Supply → Script α} (hlast : Step.nextAll inFile
      (pass.opening kind name default scope input record >>= f).steps = some last)
    {supply : Pass.Supply} (hplay : stage.playAll setup
      (pass.opening kind name default scope input record) = (begun, .ok supply)) :
    (pass.opening kind name default scope input record).outcome = .ok supply ∧
      (∃ lives' offers', begun.Serves true lives' offers') ∧
      begun.accepted = stage.accepted ++
        Step.content [] (pass.opening kind name default scope input record).steps := by
  have hown : (pass.opening kind name default scope input record).Own :=
    pass.opening_closed kind name default scope input record Script.own_closed
  have hinside : (pass.opening kind name default scope input record).Inside :=
    pass.opening_closed kind name default scope input record Script.inside_closed
  rw [Script.bind_eq, Script.steps_bind] at hlast
  obtain ⟨between, hbetween, -⟩ := Step.exists_nextAll_of_append hlast
  obtain ⟨hok, -⟩ := h.playAll hcapacity hown hbetween hplay []
  obtain ⟨found, hfound, -⟩ := Script.outcome_bind_eq_ok.mp hok
  -- the count is announced, which is in order only in a file
  have hfile : inFile = true := by
    have hfield := hbetween
    unfold Pass.opening at hfield
    rw [Script.steps_bind_of_ok hfound, Step.nextAll_append _
      (Script.nextAll_silent (pass.silent_declared kind name default scope input record))] at hfield
    cases inFile with
    | true => rfl
    | false => cases hfield
  subst hfile
  exact ⟨hok, h.accepted_playAll hcapacity hown hinside hbetween hplay⟩

/-- To begin a lazy sequence is to call its generator and to pull nothing. -/
theorem opening_lazy {generate : FieldContext → Noted (LazySequence Provider)} {order : ByteOrder}
    (horder : scope.fieldOrder kind.label = .ok order)
    (hsupplier : (pass.supplier name default scope input record).outcome = .ok (.lazy generate))
    {opened : Except Error Pass.Supply} (hplay : stage.playAll setup
      (pass.opening kind name default scope input record) = (begun, opened)) :
    let context := scope.context pass.user record
    begun.journal.generations scope.trail =
        stage.journal.generations scope.trail ++ [context] ∧
      begun.journal.pulls scope.trail = stage.journal.pulls scope.trail ∧
      ∀ reason, Pass.countOf kind (generate context).value.count = .error reason →
        opened = .error (.invalidValue scope.trail reason) := by
  intro context
  obtain ⟨hdeclared, hgenerated, hpulled⟩ := Pass.declared_lazy horder hsupplier
  refine ⟨?_, ?_, fun reason hreason => ?_⟩
  · exact (view_opening hplay (Event.attentive_generatedAt? _)
      (Event.introspective_generatedAt? _)).trans (congrArg (_ ++ ·) hgenerated)
  · exact (view_opening hplay (Event.attentive_pulledAt? _)
      (Event.introspective_pulledAt? _)).trans
        ((congrArg (_ ++ ·) hpulled).trans (List.append_nil _))
  · rw [hreason] at hdeclared
    exact playAll_opening_refused hplay hdeclared

/-- A lazy sequence that is begun is there with its count. -/
theorem Serves.opening_lazy (h : stage.Serves inFile lives offers) (hcapacity : 8 ≤ setup.capacity)
    {f : Pass.Supply → Script α} (hlast : Step.nextAll inFile
      (pass.opening kind name default scope input record >>= f).steps = some last)
    {generate : FieldContext → Noted (LazySequence Provider)} {order : ByteOrder}
    (horder : scope.fieldOrder kind.label = .ok order)
    (hsupplier : (pass.supplier name default scope input record).outcome = .ok (.lazy generate))
    {supply : Pass.Supply} (hplay : stage.playAll setup
      (pass.opening kind name default scope input record) = (begun, .ok supply)) :
    let sequence := (generate (scope.context pass.user record)).value
    supply = .ofLazy sequence ∧ (∃ lives' offers', begun.Serves true lives' offers') ∧
      ∃ n, Pass.countOf kind sequence.count = .ok n ∧
        begun.accepted = stage.accepted ++ kind.encode order n := by
  intro sequence
  obtain ⟨hok, hserves, haccepted⟩ := h.opening hcapacity hlast hplay
  obtain ⟨order', provider, n, horder', hprovider, hsupply, hn, hcontent⟩ :=
    Pass.content_opening hok
  obtain rfl := Except.ok.inj (horder'.symm.trans horder)
  obtain rfl := Except.ok.inj (hprovider.symm.trans hsupplier)
  obtain rfl : Pass.Supply.ofLazy sequence = supply :=
    Except.ok.inj ((Pass.supply_lazy generate).1.symm.trans hsupply)
  exact ⟨rfl, hserves, n, hn, haccepted.trans (congrArg (_ ++ ·) hcontent)⟩

end Opening

section Items

variable {pass : Pass} {elements : List Node} {visit : Visit} {supply : Pass.Supply}

/-- Items that were written in a file were accepted by its stream. -/
theorem Serves.allItems (h : begun.Serves true lives offers) (hcapacity : 8 ≤ setup.capacity)
    (hfile : visit.scope.file.isSome = true) {values : List Value}
    (hplay : begun.playAll setup (.collect count (pass.itemOf elements visit supply)) =
      (stage, .ok values)) :
    (∃ lives' offers', stage.Serves true lives' offers') ∧
      stage.accepted = begun.accepted ++ (List.range count).flatMap fun index =>
        Step.content [] (pass.itemOf elements visit supply index).steps := by
  have hinside : ∀ index, (pass.itemOf elements visit supply index).Inside :=
    pass.itemOf_inside elements hfile
  obtain ⟨last, hlast, -⟩ :
      Script.Orderly true true (.collect count (pass.itemOf elements visit supply)) :=
    Script.Orderly.collectFrom (pass.itemOf_orderly elements hfile) count 0 []
  have hown : Script.Own (.collect count (pass.itemOf elements visit supply)) :=
    Script.own_closed.collectFrom (pass.itemOf_own elements) count 0 []
  obtain ⟨hok, -⟩ := h.playAll hcapacity hown hlast hplay []
  obtain ⟨hlater, haccepted⟩ := h.accepted_playAll hcapacity hown
    (Script.inside_closed.collectFrom hinside count 0 []) hlast hplay
  exact ⟨hlater, haccepted.trans (congrArg (_ ++ ·) (Script.content_collect hinside count _ hok))⟩

theorem Serves.oneItem (h : begun.Serves true lives offers) (hcapacity : 8 ≤ setup.capacity)
    (hfile : visit.scope.file.isSome = true) {index : Nat} {value : Value}
    (hplay : begun.playAll setup (pass.itemOf elements visit supply index) =
      (stage, .ok value)) :
    (pass.itemOf elements visit supply index).outcome = .ok value ∧
      stage.accepted = begun.accepted ++
        Step.content [] (pass.itemOf elements visit supply index).steps := by
  obtain ⟨last, hlast, -⟩ : Script.Orderly true true (pass.itemOf elements visit supply index) :=
    pass.itemOf_orderly elements hfile index
  have hown : (pass.itemOf elements visit supply index).Own := pass.itemOf_own elements index
  obtain ⟨hok, -⟩ := h.playAll hcapacity hown hlast hplay []
  exact ⟨hok, (h.accepted_playAll hcapacity hown (pass.itemOf_inside elements hfile index) hlast
    hplay).2⟩

/-- While items are written, the generator of their own sequence is not called. -/
theorem generations_items (elements : List Node) (sequence : LazySequence Provider)
    (hfile : visit.scope.file.isSome = true) (begun : Stage) :
    (begun.playAll setup (.collect sequence.length
        (pass.itemOf elements visit (.ofLazy sequence)))).1.journal.generations
          (visit.scope.field visit.node.label).trail =
      begun.journal.generations (visit.scope.field visit.node.label).trail :=
  view_playAll_of_unshown (Event.attentive_generatedAt? _) (Event.introspective_generatedAt? _)
    (Script.forall_steps_collectFrom (pass.itemOf_unshown elements sequence hfile) _ 0 []) begun

/-- **Items of a lazy sequence are begun in turn.** -/
theorem Serves.turns {sequence : LazySequence Provider} (h : begun.Serves true lives offers)
    (hcapacity : 8 ≤ setup.capacity) (hfile : visit.scope.file.isSome = true) (count : Nat) :
    ∃ taken, begun.Turns setup (visit.scope.field visit.node.label).trail
      (pass.itemOf elements visit (.ofLazy sequence)) count taken := by
  obtain ⟨taken, hle, hends, hearlier, hall⟩ :=
    playAll_collect setup begun (pass.itemOf elements visit (.ofLazy sequence)) count
  have hpulls := view_playAll_collect (pass.itemOf_pulls elements sequence hfile setup) begun
  refine ⟨taken, hle, fun i hi => ?_, hends, fun last error hfails =>
    playAll_collect_fails (hends.symm.trans hfails) hearlier, hall, ?_⟩
  · obtain ⟨stage, values, hplay⟩ := hearlier i hi
    have hpulled := hpulls i fun j hj => hearlier j (Nat.lt_trans hj hi)
    rw [hplay] at hpulled
    exact ⟨stage, values, hplay, hpulled, (h.allItems hcapacity hfile hplay).2⟩
  · rw [hends]
    exact hpulls taken hearlier

end Items

end Stage

end Write

open Write

/-! ## Whole passes -/

/-- What the options make the script of a pass be played with. -/
def Options.setup (options : Options) (opener : SinkOpener) : Setup :=
  { opener, capacity := options.clamped.bufferSize, debug := options.debug }

theorem Options.capacity_setup (options : Options) (opener : SinkOpener) :
    8 ≤ (options.setup opener).capacity :=
  Nat.le_trans (by decide) options.minBufferSize_le_clamped

namespace Schema

variable {schema : Schema} {provider : Provider} {options : Options} {opener : SinkOpener}
  {stage : Stage} {pass : Pass} {visit : Visit}

/-- A write pass comes to a visit at a stage. -/
def Visits (schema : Schema) (provider : Provider) (options : Options) (opener : SinkOpener)
    (stage : Stage) (pass : Pass) (visit : Visit) : Prop :=
  schema.WriteReaches options provider opener stage pass visit.site visit.scope visit.input
    visit.record visit.node

/-- **Until a visit nothing has failed.** -/
theorem Visits.serves (h : schema.Visits provider options opener stage pass visit) :
    ∃ inFile lives offers last, stage.Serves inFile lives offers ∧
      Step.nextAll inFile (pass.scriptAt visit).steps = some last := by
  have hbefore : (options.warnings .write).filterMap Event.handled? = [] := by
    unfold Options.warnings
    split <;> rfl
  obtain ⟨last, hlast, -⟩ := schema.writeScript_orderly provider options
  obtain ⟨-, inFile, lives, offers, last', hserves, hvisit⟩ := Stage.Reaches.serves h
    (options.capacity_setup opener) (Stage.serves_empty _ hbefore)
    (schema.writeScript_closed Pass.own_closed provider options) hlast
  exact ⟨inFile, lives, offers, last', hserves, hvisit⟩

/-- A visit that fails ends its pass. -/
theorem Visits.fails (h : schema.Visits provider options opener stage pass visit) {last : Stage}
    {error : Error}
    (hplay : stage.playAll (options.setup opener) (pass.scriptAt visit) = (last, .error error)) :
    (schema.write provider options opener).result = .error error ∧
      (schema.write provider options opener).journal = last.journal := by
  have hreport : schema.write provider options opener = _ :=
    Script.play_of_fails (Stage.Reaches.fails h hplay)
  rw [hreport]
  exact ⟨rfl, last.journal_abandon⟩

/-- **Lazy items are pulled one at a time, only when needed.** Let a pass come to a sequence that is
given a lazy one, whatever its elements and the sinks are. If there is no byte order for it, nothing
is called. Otherwise the generator is called once. If the count is refused, or the stream fails to
take it, the pass fails with no item pulled. Once the count is accepted, items are begun in turn:
each is pulled when all ahead of it are written, and an item that fails, for whatever reason, is the
last to be pulled. -/
theorem pulled_in_turn (schema : Schema) (provider : Provider) (options : Options)
    (opener : SinkOpener) (stage : Stage) (pass : Pass) (visit : Visit)
    (hvisit : schema.Visits provider options opener stage pass visit) {kind : IntKind}
    {name : Option String} {default : Option Value} {elements : List Node}
    (hnode : visit.node = .mk (.int kind) name default (.sequence elements))
    {generate : FieldContext → Noted (LazySequence Provider)} :
    let here := visit.scope.field visit.node.label
    (pass.supplier name default here visit.input visit.record).outcome = .ok (.lazy generate) →
    let context := here.context pass.user visit.record
    let sequence := (generate context).value
    let setup := options.setup opener
    let played := stage.playAll setup (pass.scriptAt visit)
    (∀ last error, played = (last, .error error) →
      (schema.write provider options opener).result = .error error ∧
        (schema.write provider options opener).journal = last.journal) ∧
    (∀ error, here.fieldOrder kind.label = .error error → played = (stage, .error error)) ∧
    ∀ order, here.fieldOrder kind.label = .ok order →
      played.1.journal.generations here.trail =
          stage.journal.generations here.trail ++ [context] ∧
        ∃ begun opened,
          stage.playAll setup (pass.opening kind name default here visit.input visit.record) =
              (begun, opened) ∧
            begun.journal.pulls here.trail = stage.journal.pulls here.trail ∧
            (∀ reason, Pass.countOf kind sequence.count = .error reason →
              opened = .error (.invalidValue here.trail reason)) ∧
            (∀ error, opened = .error error → played = (begun, .error error)) ∧
            ∀ supply, opened = .ok supply → ∃ n taken,
              Pass.countOf kind sequence.count = .ok n ∧
                begun.accepted = stage.accepted ++ kind.encode order n ∧
                let item := pass.itemOf elements visit (.ofLazy sequence)
                let items := begun.playAll setup (.collect sequence.length item)
                begun.Turns setup here.trail item sequence.length taken ∧
                  played = (items.1, items.2.map fun values =>
                    keep name visit.record (.list values)) := by
  intro here hsupplier context sequence setup played
  obtain ⟨inFile, lives, offers, last, hserves, hlast⟩ := hvisit.serves
  have hcapacity : 8 ≤ setup.capacity := options.capacity_setup opener
  have hscript := pass.scriptAt_sequence kind elements name default hnode
  rw [hscript] at hlast
  refine ⟨fun _ _ => hvisit.fails, fun error herror => ?_, fun order horder => ?_⟩
  · show stage.playAll setup (pass.scriptAt visit) = _
    rw [hscript, Stage.playAll_bind, Stage.playAll_opening_unordered herror]
  have hfile : here.file.isSome = true := Scope.isSome_file_of_fieldOrder horder
  rcases hopening : stage.playAll setup
    (pass.opening kind name default here visit.input visit.record) with ⟨begun, opened⟩
  obtain ⟨hgenerated, hunpulled, hrefused⟩ := Stage.opening_lazy horder hsupplier hopening
  have hplayed : played = stage.playAll setup (pass.scriptAt visit) := rfl
  rw [hscript, Stage.playAll_bind, hopening] at hplayed
  cases opened with
  | error error =>
    rw [show played = (begun, .error error) from hplayed]
    refine ⟨hgenerated, begun, _, rfl, hunpulled, hrefused, fun _ herror => ?_, nofun⟩
    rw [Except.error.inj herror]
  | ok supply =>
    obtain ⟨rfl, ⟨lives', offers', hserves'⟩, n, hn, haccepted⟩ :=
      hserves.opening_lazy hcapacity hlast horder hsupplier hopening
    obtain ⟨taken, hturns⟩ := hserves'.turns hcapacity hfile sequence.length
    rw [show played = _ from hplayed.trans (Stage.playAll_map _ _)]
    refine ⟨?_, begun, _, rfl, hunpulled, hrefused, nofun, fun _ hsupply => ?_⟩
    · exact (Stage.generations_items elements sequence hfile begun).trans hgenerated
    · exact ⟨n, taken, hn, haccepted, hturns, rfl⟩

/-! ## A column that is spoiled -/

/-- Bytes behind their number. -/
def column : Schema := ⟨.ofKind (.order .big [cells]), .root, rfl⟩

/-- Three items, of which only the first is a byte. -/
def spoiled : LazySequence Provider :=
  { count := .int 3, length := 3, item := fun index => ⟨.value (.int (255 + index)), []⟩ }

/-- The bytes of a column that are given to a pass. -/
def columnVisit (given : Provider) : Visit :=
  { site := column.rootSite.below .child column.root
    scope := (Scope.single ("", "out")).withOrder .big
    input := .within (.record [("cells", given)])
    record := []
    node := cells }

/-- A pass over a column once its file is open. -/
def columnStage : Stage where
  journal := #[.trace (.singleFile .write "out"), .trace (.opening (Path.resolve "" "out")),
    .opened (Path.resolve "" "out"), .trace (.writeReady (Path.resolve "" "out") 16)]
  streams := #[]
  current := some (.create .faultless 16 (Path.resolve "" "out"))

theorem columnStage_sound : columnStage.Sound true := by
  refine ⟨rfl, fun stream hstream => ?_, List.forall_mem_nil _⟩
  obtain rfl := Option.some.inj hstream
  exact ⟨WriteStream.faultless_create SinkBehaviour.neverFails_faultless _ _, by decide⟩

/-- A pass over one file comes to the root once the file is open. -/
theorem root_reached {schema : Schema} (hfiles : schema.fileCount = 0) (provider : Provider) :
    Stage.Reaches (taggedOptions.setup fun _ _ => .ok .faultless) columnStage
      (Pass.walk ⟨.null, false⟩ schema.rootSite (Scope.single ("", "out")) (.within provider) []
        schema.root)
      (Stage.empty.log (taggedOptions.warnings .write))
      (schema.writeScript provider taggedOptions) := by
  unfold writeScript
  rw [if_pos hfiles, show splitTarget taggedOptions.path = _ from splitTarget_out, hfiles]
  refine .next rfl ?_
  refine .next rfl ?_
  unfold Pass.inFile
  refine .next rfl ?_
  refine .next rfl ?_
  refine .next rfl ?_
  refine .first _ ?_
  show Stage.Reaches _ _ _ _ (Pass.walkAll _ _ _ _ _ _ [schema.root])
  rw [Pass.walkAll]
  exact .first _ .here

theorem column_visits (given : Provider) : column.Visits (.record [("cells", given)]) taggedOptions
    (fun _ _ => .ok .faultless) columnStage ⟨.null, false⟩ (columnVisit given) := by
  refine Stage.Reaches.trans ?_ (root_reached rfl _)
  show Stage.Reaches _ _ _ _ (Pass.walk _ _ _ _ _ (.mk (.order .big [cells]) _ _ _))
  rw [Pass.walk]
  refine .first _ ?_
  show Stage.Reaches _ _ _ _ (Pass.walkAll _ _ _ _ _ _ [cells])
  rw [Pass.walkAll]
  exact .first _ .here

theorem pulled_in_turn_spoiled :
    let given := Provider.lazy fun _ => ⟨spoiled, []⟩
    let visit := columnVisit given
    let here := visit.scope.field visit.node.label
    let report := column.write (.record [("cells", given)]) taggedOptions
      fun _ _ => .ok .faultless
    ∃ begun : Stage, begun.accepted = [3] ∧
      begun.Turns (taggedOptions.setup fun _ _ => .ok .faultless) here.trail
        (Pass.itemOf ⟨.null, false⟩ [.ofKind (.int .u8)] visit (.ofLazy spoiled)) 3 2 ∧
      (∃ error, report.result = .error error) ∧
      report.journal.generations here.trail = [here.context .null []] ∧
      report.journal.pulls here.trail = [0, 1] := by
  intro given visit here report
  obtain ⟨hfails, -, hordered⟩ := Schema.pulled_in_turn column _ taggedOptions _ columnStage _ visit
    (column_visits given) rfl rfl
  obtain ⟨hgenerated, begun, opened, -, hbegun, -, hunopened, hopened⟩ := hordered .big rfl
  obtain ⟨later, hplay, -, -, hshown⟩ := Stage.playAll_sound
    (Schema.sound_setup SinkOpener.neverFails_faultless taggedOptions)
    (Pass.scriptAt ⟨.null, false⟩ visit) columnStage_sound rfl
  have hnone : columnStage.journal.pulls here.trail = [] := rfl
  have hpulled : later.journal.pulls here.trail = [0, 1] := by
    obtain ⟨context, path, path', hsteps⟩ : ∃ context path path',
        (Pass.scriptAt ⟨.null, false⟩ visit).steps =
          [.record (.call (.generate context)), .record (.generated here.trail (.int 3) 3),
            .field here.trail "U8", .scalar [3],
            .record (.pulled here.trail 0), .record (.resolved path "U8" (.int 255)),
            .field path "U8", .scalar [255], .record (.itemDone here.trail 0),
            .record (.pulled here.trail 1), .record (.resolved path' "U8" (.int 256))] :=
      ⟨_, _, _, rfl⟩
    refine (hshown (Event.attentive_pulledAt? here.trail)).trans ?_
    rw [hsteps]
    refine (congrArg (· ++ _) hnone).trans ?_
    simp [Step.shown, Event.pulledAt?, List.filterMap_cons]
  obtain ⟨hresult, hjournal⟩ := hfails later _ hplay
  cases opened with
  | error error =>
    obtain rfl := (Prod.mk.inj (hplay.symm.trans (hunopened error rfl))).1
    have hcontra := hpulled.symm.trans (hbegun.trans hnone)
    cases hcontra
  | ok supply =>
    obtain ⟨n, taken, hn, haccepted, hturns, hplayed⟩ := hopened supply rfl
    have hlater := (Prod.mk.inj (hplay.symm.trans hplayed)).1
    have hrange : [0, 1] = List.range taken := calc
      [0, 1] = later.journal.pulls here.trail := hpulled.symm
      _ = begun.journal.pulls here.trail ++ List.range taken :=
        (congrArg (fun stage => stage.journal.pulls here.trail) hlater).trans hturns.pulls
      _ = List.range taken := congrArg (· ++ List.range taken) (hbegun.trans hnone)
    obtain rfl : 2 = taken := by simpa using congrArg List.length hrange
    obtain rfl : (3 : Int) = n := Except.ok.inj hn
    refine ⟨begun, haccepted, hturns, ⟨_, hresult⟩, ?_, ?_⟩
    · rw [hjournal, ← show _ = later from congrArg Prod.fst hplay]
      exact hgenerated
    · rw [hjournal]
      exact hpulled

end Schema

end ByteLayout
