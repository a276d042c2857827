import ByteLayout.Proofs.Reading
import Mathlib.Data.List.Forall2

/-!
# Plans in lockstep

Two plans go in **lockstep** if they ask the same questions, apart from what they write down that is
neither a field nor the opening of a file, and fail with the same error or succeed with results that
are related. Plans that are made of plans in lockstep are so themselves (`Lockstep.bind`,
`Lockstep.collect`).

**Step** (`Stage.answer_matches`). On stages with the same streams and the same fields and openings
in their journals, a question gets the same reply and leaves such stages behind.

**Theorem (`Lockstep.answer`).** Plans in lockstep open the same files, announce the same fields at
the same offsets, consume the same bytes of each file, and fail with the same error or not at all.
-/

namespace ByteLayout

/-- Whether an event is neither a field nor the opening of a file. -/
def Event.Aside (event : Event) : Prop := event.field? = none ∧ event.opened? = none

namespace Read

variable {α β γ δ : Type}

/-- Two dialogues that ask the same questions, apart from asides, and have the same error or results
that are related. -/
inductive Lockstep (R : α → β → Prop) : Plan α → Plan β → Prop where
  | ok {a : α} {b : β} (h : R a b) : Lockstep R (.done (.ok a)) (.done (.ok b))
  | error (error : Error) : Lockstep R (.done (.error error)) (.done (.error error))
  | ask (question : Question) {next : question.Reply → Plan α} {next' : question.Reply → Plan β}
    (h : ∀ reply, Lockstep R (next reply) (next' reply)) :
    Lockstep R (.ask question next) (.ask question next')
  | aside {event : Event} (haside : event.Aside) {next : Unit → Plan α} {other : Plan β}
    (h : Lockstep R (next ()) other) : Lockstep R (.ask (.record event) next) other
  | asideOther {event : Event} (haside : event.Aside) {plan : Plan α} {next : Unit → Plan β}
    (h : Lockstep R plan (next ())) : Lockstep R plan (.ask (.record event) next)

namespace Lockstep

variable {R : α → β → Prop} {S : γ → δ → Prop}

/-- A plan goes in lockstep with itself. -/
theorem refl : ∀ plan : Plan α, Lockstep Eq plan plan
  | .done (.ok _) => .ok rfl
  | .done (.error failure) => .error failure
  | .ask question next => .ask question fun reply => refl (next reply)

theorem mono {R' : α → β → Prop} (hR : ∀ a b, R a b → R' a b) {plan : Plan α} {other : Plan β}
    (h : Lockstep R plan other) : Lockstep R' plan other := by
  induction h with
  | ok h => exact .ok (hR _ _ h)
  | error error => exact .error error
  | ask question _ ih => exact .ask question ih
  | aside haside _ ih => exact .aside haside ih
  | asideOther haside _ ih => exact .asideOther haside ih

/-- **Plans that follow plans in lockstep** go in lockstep if they do for related results. -/
theorem bind {plan : Plan α} {other : Plan β} {f : α → Plan γ} {g : β → Plan δ}
    (h : Lockstep R plan other) (hf : ∀ a b, R a b → Lockstep S (f a) (g b)) :
    Lockstep S (plan >>= f) (other >>= g) := by
  show Lockstep S (Dialogue.andThen plan f) (Dialogue.andThen other g)
  unfold Dialogue.andThen
  induction h with
  | ok h => exact hf _ _ h
  | error error => exact .error error
  | ask question _ ih => exact .ask question ih
  | aside haside _ ih => exact .aside haside ih
  | asideOther haside _ ih => exact .asideOther haside ih

theorem pure {a : α} {b : β} (h : R a b) :
    Lockstep R (Pure.pure a : Plan α) (Pure.pure b : Plan β) := .ok h

/-- The same plan on both sides, and what follows it. -/
theorem same (plan : Plan α) {f : α → Plan γ} {g : α → Plan δ}
    (hf : ∀ a, Lockstep S (f a) (g a)) : Lockstep S (plan >>= f) (plan >>= g) := by
  refine (refl plan).bind fun a b hab => ?_
  rw [← hab]
  exact hf a

/-- **The results of items in lockstep**, listed, are related one by one. -/
theorem collect {item : Nat → Plan α} {item' : Nat → Plan β}
    (hitem : ∀ index, Lockstep R (item index) (item' index)) :
    ∀ remaining index {results results'}, List.Forall₂ R results results' →
      Lockstep (List.Forall₂ R) (Dialogue.collect item remaining index results)
        (Dialogue.collect item' remaining index results')
  | 0, _, _, _, hresults => .ok (List.rel_reverse hresults)
  | remaining + 1, index, _, _, hresults =>
    bind (hitem index) fun _ _ hab => collect hitem remaining (index + 1) (.cons hab hresults)

/-! ## Asides -/

theorem aside_event {event : Event} (haside : event.Aside) {f : Unit → Plan α} {other : Plan β}
    (h : Lockstep R (f ()) other) : Lockstep R (Plan.event event >>= f) other :=
  .aside haside h

theorem asideOther_event {event : Event} (haside : event.Aside) {plan : Plan α} {g : Unit → Plan β}
    (h : Lockstep R plan (g ())) : Lockstep R plan (Plan.event event >>= g) :=
  .asideOther haside h

theorem aside_notes {f : Unit → Plan α} {other : Plan β} (h : Lockstep R (f ()) other) :
    ∀ notes : List Note, Lockstep R (Plan.notes notes >>= f) other
  | [] => h
  | _ :: rest => .aside ⟨rfl, rfl⟩ (aside_notes h rest)

theorem asideOther_notes {plan : Plan α} {g : Unit → Plan β} (h : Lockstep R plan (g ())) :
    ∀ notes : List Note, Lockstep R plan (Plan.notes notes >>= g)
  | [] => h
  | _ :: rest => .asideOther ⟨rfl, rfl⟩ (asideOther_notes h rest)

/-- A callback is an aside, and what it gives is the result. -/
theorem aside_called (call : Call) (answer : Noted α) {b : β} (h : R answer.value b) :
    Lockstep R (Plan.called call answer) (Pure.pure b) :=
  aside_event ⟨rfl, rfl⟩ (aside_notes (.ok h) answer.notes)

end Lockstep

/-! ## Stages -/

namespace Stage

/-- Stages with the same streams, and with the same fields and openings in their journals. -/
structure Matches (stage other : Stage) : Prop where
  streams : other.streams = stage.streams
  current : other.current = stage.current
  fields : other.journal.fields = stage.journal.fields
  openings : other.journal.openings = stage.journal.openings

variable {setup : Setup} {stage other : Stage}

theorem Matches.refl (stage : Stage) : stage.Matches stage := ⟨rfl, rfl, rfl, rfl⟩

theorem Matches.symm (h : stage.Matches other) : other.Matches stage :=
  ⟨h.streams.symm, h.current.symm, h.fields.symm, h.openings.symm⟩

theorem Matches.log (h : stage.Matches other) (events : List Event) :
    (stage.log events).Matches (other.log events) := by
  refine ⟨h.streams, h.current, ?_, ?_⟩
  · show Journal.view _ (other.journal ++ events) = Journal.view _ (stage.journal ++ events)
    rw [Journal.view_append, Journal.view_append]
    exact congrArg (· ++ _) h.fields
  · show Journal.view _ (other.journal ++ events) = Journal.view _ (stage.journal ++ events)
    rw [Journal.view_append, Journal.view_append]
    exact congrArg (· ++ _) h.openings

/-- What is written down aside makes no difference. -/
theorem Matches.aside (h : stage.Matches other) {event : Event} (haside : event.Aside) :
    (stage.log [event]).Matches other := by
  refine ⟨h.streams, h.current, ?_, ?_⟩
  · show _ = Journal.view _ (stage.journal ++ [event])
    rw [Journal.view_append, List.filterMap_cons_none haside.1, List.filterMap_nil, List.append_nil]
    exact h.fields
  · show _ = Journal.view _ (stage.journal ++ [event])
    rw [Journal.view_append, List.filterMap_cons_none haside.2, List.filterMap_nil, List.append_nil]
    exact h.openings

/-- Something is done with the open stream of both. -/
theorem onStream_matches (h : stage.Matches other)
    (operation : ReadStream → Outcome ReadStream α) :
    (other.onStream operation).1 = (stage.onStream operation).1 ∧
      (stage.onStream operation).2.Matches (other.onStream operation).2 := by
  obtain ⟨journal, streams, current⟩ := stage
  obtain ⟨journal', streams', current'⟩ := other
  obtain rfl : streams' = streams := h.streams
  obtain rfl : current' = current := h.current
  cases current' with
  | none => exact ⟨rfl, h⟩
  | some stream =>
    have hlog := h.log (operation stream).events
    exact ⟨rfl, rfl, rfl, hlog.fields, hlog.openings⟩

theorem openStream_matches (setup : Setup) (h : stage.Matches other) (path : String) :
    (other.openStream setup path).1 = (stage.openStream setup path).1 ∧
      (stage.openStream setup path).2.Matches (other.openStream setup path).2 := by
  have hpaths : other.openedPaths = stage.openedPaths :=
    congrArg (·.toList.map ReadStream.path) h.streams
  unfold openStream
  rw [hpaths]
  cases setup.opener stage.openedPaths path with
  | error error => exact ⟨rfl, h⟩
  | ok behaviour =>
    have hlog := h.log [.opened path, .trace (.readReady path setup.chunk)]
    exact ⟨rfl, hlog.streams, rfl, hlog.fields, hlog.openings⟩

theorem closeStream_matches (h : stage.Matches other) (path : String) :
    (stage.closeStream path).Matches (other.closeStream path) := by
  obtain ⟨journal, streams, current⟩ := stage
  obtain ⟨journal', streams', current'⟩ := other
  obtain rfl : streams' = streams := h.streams
  obtain rfl : current' = current := h.current
  cases current' with
  | none => exact h
  | some stream =>
    have hlog := (h.log [.trace (.fileRead path stream.position)]).log stream.close.events
    have hpush : ∀ journal : Journal,
        journal.push (.trace (.fileRead path stream.position)) =
          journal ++ [Event.trace (.fileRead path stream.position)] := fun _ => by simp
    refine ⟨rfl, rfl, ?_, ?_⟩
    · show Journal.fields (Array.push journal' _ ++ stream.close.events) =
        Journal.fields (Array.push journal _ ++ stream.close.events)
      rw [hpush, hpush]
      exact hlog.fields
    · show Journal.openings (Array.push journal' _ ++ stream.close.events) =
        Journal.openings (Array.push journal _ ++ stream.close.events)
      rw [hpush, hpush]
      exact hlog.openings

/-- **Matching stages give the same reply** and are left matching. -/
theorem answer_matches (setup : Setup) (h : stage.Matches other) (question : Question) :
    (other.answer setup question).1 = (stage.answer setup question).1 ∧
      (stage.answer setup question).2.Matches (other.answer setup question).2 := by
  have hoffset : other.offset = stage.offset := by
    unfold offset
    rw [h.current]
  cases question with
  | record event => exact ⟨rfl, h.log [event]⟩
  | field path kind =>
    have hlog := h.log [.trace (.field .read setup.debug path kind stage.offset)]
    refine ⟨rfl, ?_⟩
    show (stage.log _).Matches (other.log [.trace (.field _ _ path kind other.offset)])
    rw [hoffset]
    exact hlog
  | openFile path => exact openStream_matches setup h path
  | closeFile path => exact ⟨rfl, closeStream_matches h path⟩
  | await count => exact onStream_matches h _
  | fetch count => exact onStream_matches h _
  | read count => exact onStream_matches h _
  | position => exact ⟨hoffset, h⟩

/-- Related results, or the same error. -/
def SameEnd (R : α → β → Prop) : Except Error α → Except Error β → Prop
  | .ok a, .ok b => R a b
  | .error error, .error error' => error' = error
  | _, _ => False

theorem SameEnd.error_iff {R : α → β → Prop} {result : Except Error α} {other : Except Error β}
    (h : SameEnd R result other) (error : Error) :
    other = .error error ↔ result = .error error := by
  match result, other with
  | .ok _, .ok _ => exact ⟨nofun, nofun⟩
  | .ok _, .error _ => exact absurd h id
  | .error _, .ok _ => exact absurd h id
  | .error first, .error second =>
    obtain rfl : second = first := h
    rw [Except.error.injEq, Except.error.injEq]

/-- **Plans in lockstep leave matching stages matching.** -/
theorem answerAll_matches {R : α → β → Prop} {plan : Plan α} {other : Plan β}
    (h : Lockstep R plan other) (setup : Setup) {first second : Stage}
    (hstages : first.Matches second) :
    SameEnd R (first.answerAll setup plan).1 (second.answerAll setup other).1 ∧
      (first.answerAll setup plan).2.Matches (second.answerAll setup other).2 := by
  induction h generalizing first second with
  | ok h => exact ⟨h, hstages⟩
  | error error => exact ⟨rfl, hstages⟩
  | ask question _ ih =>
    have hmatches := answer_matches setup hstages question
    unfold answerAll
    cases hfirst : first.answer setup question with | mk reply later
    cases hsecond : second.answer setup question with | mk reply' later'
    rw [hfirst, hsecond] at hmatches
    obtain ⟨hreply, hlater⟩ := hmatches
    obtain rfl : reply' = reply := hreply
    exact ih reply' hlater
  | aside haside _ ih => exact ih (hstages.aside haside)
  | asideOther haside _ ih => exact ih (hstages.symm.aside haside).symm

theorem Matches.abandon (h : stage.Matches other) : stage.abandon.Matches other.abandon := by
  obtain ⟨journal, streams, current⟩ := stage
  obtain ⟨journal', streams', current'⟩ := other
  obtain rfl : streams' = streams := h.streams
  obtain rfl : current' = current := h.current
  cases current' with
  | none => exact h
  | some stream => exact ⟨rfl, rfl, h.fields, h.openings⟩

end Stage

/-- Passes that cannot be told apart by what they do to their sources: they open the same files,
announce the same fields, consume the same bytes, and fail with the same error or not at all. -/
structure Report.Alike (report : Report α) (other : Report β) : Prop where
  openings : other.journal.openings = report.journal.openings
  fields : other.journal.fields = report.journal.fields
  streams : other.streams = report.streams
  error : ∀ error, other.result = .error error ↔ report.result = .error error

/-- **Plans in lockstep cannot be told apart by what they do to their sources.** -/
theorem Lockstep.answer {R : α → β → Prop} {plan : Plan α} {other : Plan β}
    (h : Lockstep R plan other) (setup : Setup) (before : List Event) :
    (plan.answer setup before).Alike (other.answer setup before) := by
  obtain ⟨hend, hmatches⟩ := Stage.answerAll_matches h setup (.refl (Stage.empty.log before))
  have hlast := hmatches.abandon
  exact ⟨hlast.openings, hlast.fields, hlast.streams, hend.error_iff⟩

end Read

end ByteLayout
