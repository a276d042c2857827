import ByteLayout.Proofs.Handing
import ByteLayout.Proofs.Parsing

/-!
# Plans that pay for their items

A plan that reads from an open stream completes items of sequences, and each of them has to be paid
for by a byte that was consumed. `plan.Pays before after Q` says so with credit: with the credit
`before` at the beginning, the plan has as much left at the end as `after`, for it spends one on
every item and gains one with every byte. A plan that fails has never spent more than it had.

So a plan followed by another pays for both (`Pays.bind`), a field of some bytes gains them
(`pays_fetch`), an item that is completed costs one (`pays_itemDone`), and a list of items costs
nothing if each of them is left with what it began with (`Pays.collect`).
-/

namespace ByteLayout

namespace Event

/-- The item of a sequence that was completed. -/
def item? : Event → Option (String × Nat)
  | itemDone path index => some (path, index)
  | _ => none

theorem attentive_item? : Attentive item? := by
  intro event h
  cases event with
  | itemDone path index => cases h
  | _ => rfl

end Event

/-- The number of items of sequences that were completed. -/
def Journal.itemsDone (journal : Journal) : Nat := (journal.view Event.item?).length

namespace Journal

theorem itemsDone_append (journal : Journal) (events : List Event) :
    itemsDone (journal ++ events) = journal.itemsDone + (events.filterMap Event.item?).length := by
  unfold itemsDone
  rw [view_append, List.length_append]

theorem itemsDone_append_quiet (journal : Journal) {events : List Event}
    (h : ∀ event ∈ events, event.Quiet) : itemsDone (journal ++ events) = journal.itemsDone := by
  unfold itemsDone
  rw [view_append_quiet Event.attentive_item? journal h]

end Journal

namespace Read

variable {α β : Type}

/-- Whether the items that were completed are paid for by the bytes `used` and the credit `before`.
After a success at least `after` is left, and `Q` relates the result to the number of items. -/
def Balanced (used before after : Nat) (Q : α → Nat → Prop) (done : Nat) : Except Error α → Prop
  | .ok a => done + after ≤ used + before ∧ Q a done
  | .error _ => done ≤ used + before

/-- What came of a plan on a stage with an open stream: some bytes were consumed and some items
completed, and these are paid for. -/
def Stage.Paid (stage : Stage) (stream : ReadStream) (before after : Nat) (Q : α → Nat → Prop)
    (answer : Except Error α × Stage) : Prop :=
  ∃ later used done, answer.2.current = some later ∧ stream.Consumes later used ∧
    answer.2.streams = stage.streams ∧
    answer.2.journal.itemsDone = stage.journal.itemsDone + done ∧
    Balanced used.length before after Q done answer.1

/-- A plan that pays for its items. -/
def Plan.Pays (before : Nat) (plan : Plan α) (after : Nat) (Q : α → Nat → Prop) : Prop :=
  ∀ (setup : Setup) (stage : Stage) (stream : ReadStream), stage.current = some stream →
    stage.Paid stream before after Q (stage.follow setup plan)

namespace Plan

variable {before middle after : Nat} {Q : α → Nat → Prop} {R : β → Nat → Prop}

/-- No item is completed. -/
def Idle (_ : α) (done : Nat) : Prop := done = 0

theorem pays_ofExcept {result : Except Error α} (h : ∀ a, result = .ok a → Q a 0) :
    Pays before (.ofExcept result) before Q := by
  intro setup stage stream hcurrent
  refine ⟨stream, [], 0, hcurrent, .refl stream, rfl, rfl, ?_⟩
  show Balanced 0 before before Q 0 result
  cases result with
  | ok a => exact ⟨Nat.le_refl _, h a rfl⟩
  | error error => exact Nat.zero_le _

theorem pays_pure {a : α} (h : Q a 0) : Pays before (Pure.pure a) before Q :=
  pays_ofExcept fun _ ha => Except.ok.inj ha ▸ h

theorem idle_ofExcept (result : Except Error α) : Pays before (.ofExcept result) before Idle :=
  pays_ofExcept fun _ _ => rfl

theorem idle_pure (a : α) : Pays before (Pure.pure a) before Idle := pays_pure rfl

theorem Pays.mono {R : α → Nat → Prop} {plan : Plan α} {less : Nat} (h : Pays before plan after Q)
    (hless : less ≤ after) (hQ : ∀ a done, Q a done → R a done) : Pays before plan less R := by
  intro setup stage stream hcurrent
  obtain ⟨later, used, done, hlater, hconsumes, hstreams, hdone, hanswer⟩ :=
    h setup stage stream hcurrent
  refine ⟨later, used, done, hlater, hconsumes, hstreams, hdone, ?_⟩
  cases hresult : (stage.follow setup plan).1 with
  | ok a =>
    rw [hresult] at hanswer
    obtain ⟨hcredit, hdone⟩ := hanswer
    exact ⟨Nat.le_trans (Nat.add_le_add_left hless done) hcredit, hQ a done hdone⟩
  | error error =>
    rw [hresult] at hanswer
    exact hanswer

/-- **The second plan pays with what the first one left.** -/
theorem Pays.bind {plan : Plan α} {f : α → Plan β} (h : Pays before plan middle Q)
    (hf : ∀ a first, Q a first → Pays middle (f a) after fun b more => R b (first + more)) :
    Pays before (plan >>= f) after R := by
  intro setup stage stream hcurrent
  rw [Stage.follow_bind]
  obtain ⟨later, used, done, hlater, hconsumes, hstreams, hdone, hanswer⟩ :=
    h setup stage stream hcurrent
  rcases hfollow : stage.follow setup plan with ⟨error | a, moved⟩
  · rw [hfollow] at hlater hstreams hdone hanswer
    exact ⟨later, used, done, hlater, hconsumes, hstreams, hdone, hanswer⟩
  · rw [hfollow] at hlater hstreams hdone hanswer
    obtain ⟨hcredit, hQ⟩ := hanswer
    obtain ⟨last, more, items, hlast, hmore, hsame, hitems, hnext⟩ :=
      hf a done hQ setup moved later hlater
    refine ⟨last, used ++ more, done + items, hlast, hconsumes.trans hmore, hsame.trans hstreams,
      ?_, ?_⟩
    · rw [hitems, hdone, Nat.add_assoc]
    · dsimp only
      rw [List.length_append]
      cases hresult : (moved.follow setup (f a)).1 with
      | ok b =>
        rw [hresult] at hnext
        obtain ⟨hmore, hR⟩ := hnext
        exact ⟨by omega, hR⟩
      | error error =>
        rw [hresult] at hnext
        unfold Balanced at hnext ⊢
        omega

/-- What comes behind a plan that completes no item. -/
theorem Pays.idle {plan : Plan α} {f : α → Plan β} (h : Pays before plan middle Idle)
    (hf : ∀ a, Pays middle (f a) after R) : Pays before (plan >>= f) after R := by
  refine h.bind fun a first hfirst => ?_
  obtain rfl : first = 0 := hfirst
  exact (hf a).mono (Nat.le_refl _) fun b more hR => (Nat.zero_add more).symm ▸ hR

/-! ## Questions -/

theorem pays_event (event : Event) (h : event.item? = none) :
    Pays before (.event event) before Idle := by
  intro setup stage stream hcurrent
  refine ⟨stream, [], 0, hcurrent, .refl stream, rfl, ?_, Nat.le_refl _, rfl⟩
  show Journal.itemsDone (stage.journal ++ [event]) = _
  rw [Journal.itemsDone_append, List.filterMap_cons_none h]
  rfl

/-- **A completed item costs one.** -/
theorem pays_itemDone (path : String) (index : Nat) :
    Pays (after + 1) (.event (.itemDone path index)) after fun _ done => done = 1 := by
  intro setup stage stream hcurrent
  refine ⟨stream, [], 1, hcurrent, .refl stream, rfl, ?_, ?_, rfl⟩
  · show Journal.itemsDone (stage.journal ++ [_]) = _
    rw [Journal.itemsDone_append]
    rfl
  · rw [List.length_nil]
    omega

theorem pays_field (path kind : String) : Pays before (.field path kind) before Idle := by
  intro setup stage stream hcurrent
  refine ⟨stream, [], 0, hcurrent, .refl stream, rfl, ?_, Nat.le_refl _, rfl⟩
  show Journal.itemsDone (stage.journal ++ [_]) = _
  rw [Journal.itemsDone_append]
  rfl

/-- What is handed out by the open stream is gained. -/
theorem paid_onStream {stage : Stage} {stream : ReadStream} (hcurrent : stage.current = some stream)
    {count : Nat} {operation : ReadStream → Outcome ReadStream (List UInt8)}
    (h : stream.Hands (ReadStream.Run [] count) (operation stream)) :
    stage.Paid stream before (before + count) Idle (stage.onStream operation) := by
  obtain ⟨journal, streams, current⟩ := stage
  obtain rfl : current = some stream := hcurrent
  obtain ⟨used, hconsumes, hgives⟩ := h.consumes
  refine ⟨(operation stream).stream, used, 0, rfl, hconsumes, rfl,
    journal.itemsDone_append_quiet h.quiet, ?_⟩
  show Balanced used.length before (before + count) Idle 0 (operation stream).result
  cases hresult : (operation stream).result with
  | ok bytes =>
    rw [hresult] at hgives
    obtain ⟨-, hlength⟩ := hgives
    exact ⟨by omega, rfl⟩
  | error error => exact Nat.zero_le _

/-- **Bytes that are consumed are gained.** -/
theorem pays_fetch (count : Nat) : Pays before (.fetch count) (before + count) Idle :=
  fun _ _ stream hcurrent => paid_onStream hcurrent (stream.fetch_hands count)

theorem pays_read (count : Nat) : Pays before (.read count) (before + count) Idle :=
  fun _ _ stream hcurrent => paid_onStream hcurrent (stream.readBytes_hands count)

/-! ## Callbacks and lists -/

theorem pays_notes : ∀ notes : List Note, Pays before (.notes notes) before Idle
  | [] => idle_pure ()
  | note :: rest => (pays_event (.note note) rfl).idle fun _ => pays_notes rest

theorem pays_called (call : Call) (answer : Noted α) :
    Pays before (.called call answer) before Idle :=
  (pays_event (.call call) rfl).idle fun _ =>
    (pays_notes answer.notes).idle fun _ => idle_pure answer.value

/-- Items that are left with what they began with, and the weight of their results: if a condition
holds, none weighs more than the items in it. -/
theorem pays_collect (condition : Prop) (weight : α → Nat) {item : Nat → Plan α}
    (hitem : ∀ index, Pays before (item index) before
      fun a done => condition → weight a ≤ done) :
    ∀ remaining index results, Pays before (Dialogue.collect item remaining index results) before
      fun list done => condition →
        (list.map weight).sum ≤ (results.map weight).sum + done
  | 0, _, results => by
    refine pays_ofExcept fun list hlist _ => ?_
    rw [← Except.ok.inj hlist, List.map_reverse, List.sum_reverse]
    exact Nat.le_refl _
  | remaining + 1, index, results => by
    refine (hitem index).bind fun a first hfirst => ?_
    refine (pays_collect condition weight hitem remaining (index + 1) (a :: results)).mono
      (Nat.le_refl _) fun list more hlist hcondition => ?_
    have hsum := hlist hcondition
    have hweight := hfirst hcondition
    rw [List.map_cons, List.sum_cons] at hsum
    omega

end Plan

end Read

end ByteLayout
