import ByteLayout.Proofs.Reading

/-!
# Dialogues that stop at the first failure

Where a source ends within a text, how many bytes are missing depends on how the text was read. So
two errors are **alike** if they have the same cause at the same path, whatever the number of
missing bytes or the text of a callback.

A dialogue **stops** if a reply that is an error ends it, with alike errors for alike replies
(`Dialogue.Stops`). Nothing is asked behind a failure then, so nothing depends on what it left
behind.

**Theorem (`Schema.readPlan_stops`).** The plan of a layout stops if its decoders do.
-/

namespace ByteLayout

/-- Errors with the same cause at the same path. -/
def Error.Alike : Error → Error → Prop
  | .unexpectedEnd path _, other => ∃ needed, other = .unexpectedEnd path needed
  | .custom path _, other => ∃ text, other = .custom path text
  | error, other => other = error

theorem Error.Alike.refl (error : Error) : error.Alike error := by
  cases error with
  | unexpectedEnd path needed => exact ⟨needed, rfl⟩
  | custom path text => exact ⟨text, rfl⟩
  | _ => rfl

/-- Faults that lead to errors that are alike. -/
def Fault.Alike : Fault → Fault → Prop
  | .library error, .library other => error.Alike other
  | .foreign _, .foreign _ => True
  | _, _ => False

theorem Fault.Alike.atField {fault other : Fault} (h : fault.Alike other) (path : String) :
    (fault.atField path).Alike (other.atField path) := by
  cases fault with
  | library error =>
    cases other with
    | library error' => exact h
    | foreign _ => exact h.elim
  | foreign text =>
    cases other with
    | library _ => exact h.elim
    | foreign text' => exact ⟨text', rfl⟩

/-! ## Stopping -/

/-- The error that a reply is. -/
def failure? {α : Type} : Except Error α → Option Error
  | .ok _ => none
  | .error error => some error

namespace Dialogue

variable {Question : Type} {Reply : Question → Type} {ε δ α β : Type}

/-- Whether a reply that is an error ends a dialogue, with alike failures for alike errors. -/
def Stops (error? : (question : Question) → Reply question → Option Error) (alike : ε → ε → Prop) :
    Dialogue Reply (Except ε α) → Prop
  | .done _ => True
  | .ask question next =>
    (∀ reply, error? question reply = none → Stops error? alike (next reply)) ∧
      ∀ reply other error error', error? question reply = some error →
        error? question other = some error' → error.Alike error' →
        ∃ failure failure', next reply = .done (.error failure) ∧
          next other = .done (.error failure') ∧ alike failure failure'

variable {error? : (question : Question) → Reply question → Option Error} {alike : ε → ε → Prop}

theorem Stops.andThen {f : α → Dialogue Reply (Except ε β)} (hf : ∀ a, (f a).Stops error? alike) :
    ∀ {dialogue : Dialogue Reply (Except ε α)}, dialogue.Stops error? alike →
      (dialogue.andThen f).Stops error? alike
  | .done (.ok a), _ => hf a
  | .done (.error _), _ => trivial
  | .ask question next, ⟨hgo, hstop⟩ => by
    refine ⟨fun reply hreply => .andThen hf (hgo reply hreply), fun reply other error error'
      hreply hother herrors => ?_⟩
    obtain ⟨failure, failure', hfailed, hfailed', halike⟩ :=
      hstop reply other error error' hreply hother herrors
    refine ⟨failure, failure', ?_, ?_, halike⟩
    · show (next reply).andThen f = _
      rw [hfailed]
      rfl
    · show (next other).andThen f = _
      rw [hfailed']
      rfl

end Dialogue

namespace DecoderQuestion

/-- The error that a reply is. -/
def error? : (question : DecoderQuestion) → question.Reply → Option Error
  | .note _, _ => none
  | .await _, reply => failure? reply
  | .fetch _, reply => failure? reply
  | .read _, reply => failure? reply
  | .position, _ => none

end DecoderQuestion

/-- Whether a decoder ends with the first error it gets. -/
def Decoding.Stops {α : Type} (decoding : Decoding α) : Prop :=
  Dialogue.Stops DecoderQuestion.error? Fault.Alike decoding

namespace Decoding

variable {α β : Type}

theorem Stops.bind {decoding : Decoding α} {f : α → Decoding β} (h : decoding.Stops)
    (hf : ∀ a, (f a).Stops) : (decoding >>= f).Stops :=
  Dialogue.Stops.andThen hf h

theorem stops_fetch (count : Nat) : (fetch count).Stops := by
  refine ⟨fun reply _ => ?_, fun reply other error error' hreply hother halike => ?_⟩
  · cases reply <;> trivial
  · cases reply with
    | ok _ => cases hreply
    | error _ =>
      cases other with
      | ok _ => cases hother
      | error _ =>
        cases hreply
        cases hother
        exact ⟨_, _, rfl, rfl, halike⟩

theorem stops_readInt (order : ByteOrder) (kind : IntKind) : (readInt order kind).Stops :=
  (stops_fetch kind.width).bind fun _ => trivial

end Decoding

/-- Whether the decoder of a custom node always stops. -/
def Kind.Stopping : Kind → Prop
  | .custom codec => ∀ context, (codec.decode context).Stops
  | _ => True

namespace Read

namespace Question

/-- The error that a reply is. -/
def error? : (question : Question) → question.Reply → Option Error
  | .record _, _ => none
  | .field _ _, _ => none
  | .openFile _, reply => failure? reply
  | .closeFile _, _ => none
  | .await _, reply => failure? reply
  | .fetch _, reply => failure? reply
  | .read _, reply => failure? reply
  | .position, _ => none

end Question

namespace Plan

variable {α β : Type}

/-- Whether a plan ends with the first error it gets. -/
def Stops (plan : Plan α) : Prop := Dialogue.Stops Question.error? Error.Alike plan

/-- A question whose reply is the result. -/
theorem stops_ask {question : Question} {ask : question.Reply → Except Error α}
    (h : ∀ reply error, question.error? reply = some error → ask reply = .error error) :
    Stops (.ask question fun reply => .done (ask reply)) :=
  ⟨fun _ _ => trivial, fun reply other error error' hreply hother halike =>
    ⟨error, error', congrArg _ (h reply error hreply), congrArg _ (h other error' hother), halike⟩⟩

theorem stops_reply {β : Type} {reply : Except Error β} {error : Error}
    (h : failure? reply = some error) : reply = .error error := by
  cases reply with
  | ok _ => cases h
  | error _ => rw [Option.some.inj h]

theorem stops_closed : Closed fun _ plan => plan.Stops where
  done _ := trivial
  bind hplan hf := Dialogue.Stops.andThen hf hplan
  event _ := stops_ask fun _ _ h => nomatch h
  field _ _ := stops_ask fun _ _ h => nomatch h
  fetch _ := stops_ask fun _ _ h => stops_reply h
  read _ := stops_ask fun _ _ h => stops_reply h

/-- **A field stops if its decoder does.** -/
theorem stops_decode (path : String) : ∀ {decoding : Decoding α}, decoding.Stops →
    (decode path decoding).Stops
  | .done (.ok _), _ => trivial
  | .done (.error _), _ => trivial
  | .ask question next, ⟨hgo, hstop⟩ => by
    have hfail : ∀ {reply : question.Reply} {failure : Fault},
        next reply = .done (.error failure) →
        decode path (next reply) = .done (.error (failure.atField path)) := by
      intro reply failure h
      rw [h]
      rfl
    have hstops : ∀ reply other error error', question.error? reply = some error →
        question.error? other = some error' → error.Alike error' →
        ∃ failure failure', decode path (next reply) = .done (.error failure) ∧
          decode path (next other) = .done (.error failure') ∧ failure.Alike failure' := by
      intro reply other error error' hreply hother halike
      obtain ⟨fault, fault', hfault, hfault', hfaults⟩ :=
        hstop reply other error error' hreply hother halike
      exact ⟨_, _, hfail hfault, hfail hfault', hfaults.atField path⟩
    have hgoes : ∀ reply, question.error? reply = none → (decode path (next reply)).Stops :=
      fun reply hreply => stops_decode path (hgo reply hreply)
    cases question <;> exact ⟨hgoes, hstops⟩

end Plan

theorem Pass.stops_closed (pass : Pass) :
    pass.Closed (fun _ plan => plan.Stops) (fun _ => True) Kind.Stopping where
  toClosed := Plan.stops_closed
  withOrder _ _ := trivial
  inField _ _ := trivial
  item _ _ := trivial
  enterDir _ _ := trivial
  file relative record _ _ hcontent :=
    pass.inFile_closed Plan.stops_closed
      (fun _ => Plan.stops_ask fun _ _ h => Plan.stops_reply h)
      (fun _ => Plan.stops_ask fun _ _ h => nomatch h) relative _ record
      fun inner record => hcontent inner record trivial
  decode hcodec path context := Plan.stops_decode path (hcodec context)

end Read

/-- **The plan of a layout stops if its decoders do.** -/
theorem Schema.readPlan_stops (schema : Schema) (hroot : schema.root.Every Kind.Stopping)
    (transform : Option Transform) (options : Options) :
    (schema.readPlan transform options).Stops :=
  schema.readPlan_closed (P := fun _ plan => plan.Stops) Read.Pass.stops_closed hroot transform
    options

end ByteLayout
