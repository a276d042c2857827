/-!
# Dialogues

A computation that asks questions and goes on with the replies, which may depend in type on the
question. It is a tree of finite depth, so a computation over it is a structural recursion, whoever
replies; and nothing behind a question is computed before the reply is there.

Both passes are dialogues. What they ask for depends on the layout and the data only; streams, sinks
and sources come in with the one who replies, and what they do to a dialogue is stated once, for all
dialogues.

Most dialogues may fail, so that their result is an `Except`. `andThen` goes on after a success, and
`collect` lists the results of a number of dialogues, up to the first that fails.
-/

namespace ByteLayout

/-- A result, or a question and what to do with its reply. -/
inductive Dialogue {Question : Type} (Reply : Question → Type) (α : Type) where
  | done (result : α)
  | ask (question : Question) (next : Reply question → Dialogue Reply α)

namespace Dialogue

variable {Question Other : Type} {Reply : Question → Type} {OtherReply : Other → Type}
variable {ε α β γ : Type}

/-- Goes on after the result. -/
def bind : Dialogue Reply α → (α → Dialogue Reply β) → Dialogue Reply β
  | done result, f => f result
  | ask question next, f => ask question fun reply => (next reply).bind f

def map (f : α → β) (dialogue : Dialogue Reply α) : Dialogue Reply β :=
  dialogue.bind fun result => done (f result)

/-- Replaces every question by a dialogue that finds its reply. -/
def interpret (answer : (question : Question) → Dialogue OtherReply (Reply question)) :
    Dialogue Reply α → Dialogue OtherReply α
  | done result => done result
  | ask question next => (answer question).bind fun reply => (next reply).interpret answer

@[simp] theorem done_bind (result : α) (f : α → Dialogue Reply β) :
    (done result : Dialogue Reply α).bind f = f result := rfl

@[simp] theorem ask_bind (question : Question) (next : Reply question → Dialogue Reply α)
    (f : α → Dialogue Reply β) :
    (ask question next).bind f = ask question fun reply => (next reply).bind f := rfl

/-! ## Dialogues that may fail -/

/-- Goes on after a success; a failure ends the dialogue. -/
def andThen (dialogue : Dialogue Reply (Except ε α))
    (f : α → Dialogue Reply (Except ε β)) : Dialogue Reply (Except ε β) :=
  dialogue.bind fun
    | .ok a => f a
    | .error error => done (.error error)

theorem andThen_assoc (dialogue : Dialogue Reply (Except ε α)) (f : α → Dialogue Reply (Except ε β))
    (g : β → Dialogue Reply (Except ε γ)) :
    (dialogue.andThen f).andThen g = dialogue.andThen fun a => (f a).andThen g := by
  induction dialogue with
  | done result => cases result <;> rfl
  | ask question next ih => exact congrArg (ask question) (funext ih)

theorem andThen_ok (dialogue : Dialogue Reply (Except ε α)) :
    (dialogue.andThen fun a => done (.ok a)) = dialogue := by
  induction dialogue with
  | done result => cases result <;> rfl
  | ask question next ih => exact congrArg (ask question) (funext ih)

/-- The results of `remaining` dialogues, of which the first has the number `index`, behind those
given, which are listed last first. -/
def collect (item : Nat → Dialogue Reply (Except ε α)) :
    Nat → Nat → List α → Dialogue Reply (Except ε (List α))
  | 0, _, results => done (.ok results.reverse)
  | remaining + 1, index, results =>
    (item index).andThen fun a => collect item remaining (index + 1) (a :: results)

end Dialogue

end ByteLayout
