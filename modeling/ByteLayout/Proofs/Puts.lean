import ByteLayout.Proofs.Integer
import ByteLayout.Proofs.Nesting
import ByteLayout.Proofs.ReadHistory

/-!
# What encoders put and decoders get

An encoder puts integers, floats and bytes, and a decoder gets them. What a field has in the stream
is what its encoder **put**, one behind the other (`Put.encodeAll`). A decoder that gets the same
kinds in the same order is handed the same values, each of them from where the last one ended.

**Step (`Stage.follow_get`).** Where the bytes of a put are next in the stream, a get is answered
with what was put, and the stream is moved by its width.

**Run (`Stage.follow_gets`).** So are any number of gets, whatever comes behind them.

For that a stream has to be **in place** (`ReadStream.InPlace`), with the bytes behind its position
unread. One over a source that gives all its bytes is, whatever was asked of it before
(`Stage.Reaches.inPlace`).
-/

namespace ByteLayout

/-! ## Puts and gets -/

/-- Something that an encoder puts. -/
inductive Put where
  | int (kind : IntKind) (n : Int)
  /-- The bit pattern of a float. -/
  | float (kind : FloatKind) (bits : Nat)
  | raw (bytes : List UInt8)
  deriving DecidableEq

/-- Something that a decoder asks for. -/
inductive Get where
  | int (kind : IntKind)
  | float (kind : FloatKind)
  | raw (count : Nat)

namespace Put

variable (order : ByteOrder)

/-- Whether there is such a value of the kind. -/
def Holds : Put → Prop
  | int kind n => kind.Holds n
  | float kind bits => bits < Nat.pow 256 kind.width
  | raw _ => True

/-- The number of bytes. -/
def width : Put → Nat
  | int kind _ => kind.width
  | float kind _ => kind.width
  | raw bytes => bytes.length

def encode : Put → List UInt8
  | int kind n => kind.encode order n
  | float kind bits => kind.encodeBits order bits
  | raw bytes => bytes

/-- The step of an encoder. -/
def step : Put → Encoding Unit
  | int kind n => .putInt order kind n
  | float kind bits => .putFloat order kind bits
  | raw bytes => .putBytes bytes

/-- What a decoder asks for to get it. -/
def get : Put → Get
  | int kind _ => .int kind
  | float kind _ => .float kind
  | raw bytes => .raw bytes.length

@[simp] theorem length_encode (put : Put) : (put.encode order).length = put.width := by
  cases put with
  | int kind n => exact kind.length_encode order n
  | float kind bits => exact order.length_bytes kind.width bits
  | raw bytes => rfl

/-- The bytes of puts, one behind the other. -/
def encodeAll (puts : List Put) : List UInt8 := puts.flatMap (encode order)

/-- An encoder that puts one after the other. -/
def all : List Put → Encoding Unit
  | [] => pure ()
  | put :: rest => do
    put.step order
    all rest

theorem encodeAll_append (before after : List Put) :
    encodeAll order (before ++ after) = encodeAll order before ++ encodeAll order after :=
  List.flatMap_append

theorem length_encodeAll (puts : List Put) :
    (encodeAll order puts).length = (puts.map width).sum := by
  induction puts with
  | nil => rfl
  | cons put rest ih =>
    rw [encodeAll, List.flatMap_cons, List.length_append, length_encode, List.map_cons,
      List.sum_cons]
    exact congrArg (put.width + ·) ih

/-- Each put is behind those before. -/
theorem all_eq (puts : List Put) (written : List UInt8) :
    all order puts written = ⟨.ok ((), written ++ encodeAll order puts), []⟩ := by
  induction puts generalizing written with
  | nil =>
    rw [encodeAll, List.flatMap_nil, List.append_nil]
    rfl
  | cons put rest ih =>
    have hput : put.step order written = ⟨.ok ((), written ++ put.encode order), []⟩ := by
      cases put <;> rfl
    show Encoding.bind (put.step order) (fun _ => all order rest) written = _
    rw [Encoding.bind, hput, encodeAll, List.flatMap_cons, ← List.append_assoc]
    exact ih (written ++ put.encode order)

/-- **An encoder has the bytes of its puts.** -/
theorem run_all (puts : List Put) : (all order puts).run = ⟨.ok (encodeAll order puts), []⟩ := by
  unfold Encoding.run
  rw [all_eq]
  rfl

end Put

namespace Get

variable (order : ByteOrder)

/-- Gets one thing. -/
def read : Get → Decoding Put
  | int kind => do
    let n ← Decoding.readInt order kind
    return .int kind n
  | float kind => do
    let bits ← Decoding.readFloat order kind
    return .float kind bits
  | raw count => do
    let bytes ← Decoding.readBytes count
    return .raw bytes

/-- Gets one thing after the other. -/
def all : List Get → Decoding (List Put)
  | [] => return []
  | get :: rest => do
    let put ← get.read order
    let puts ← all rest
    return put :: puts

end Get

namespace Decoding

variable {α β γ : Type}

theorem bind_assoc (decoding : Decoding α) (f : α → Decoding β) (g : β → Decoding γ) :
    (decoding >>= f) >>= g = decoding >>= fun a => f a >>= g :=
  Dialogue.andThen_assoc decoding f g

end Decoding

/-! ## Streams over files that can be read -/

namespace ReadStream

variable {α : Type} {stream : ReadStream} {gives : List UInt8 → Except Error α → Prop}

/-- Whether a stream, if its source gives all its bytes, is in use and has those unread that lie
behind its position. -/
def InPlace (stream : ReadStream) : Prop :=
  stream.source.behaviour.Generous →
    stream.Steady ∧ stream.unread = stream.source.behaviour.data.drop stream.position

theorem inPlace_create (behaviour : SourceBehaviour) (chunk : Nat) (path : String) :
    (create behaviour chunk path).InPlace :=
  fun h => ⟨steady_create h.portion chunk path, rfl⟩

/-- What is asked of a stream leaves it in its place. -/
theorem InPlace.hands (h : stream.InPlace) {outcome : Outcome ReadStream α}
    (hhands : Hands stream gives outcome)
    (hunbroken : stream.Steady → stream.source.behaviour.failure = none → outcome.Unbroken) :
    outcome.stream.InPlace := by
  intro hgenerous
  obtain ⟨used, hconsumes, -⟩ := hhands.consumes
  rw [hconsumes.behaviour] at hgenerous ⊢
  obtain ⟨hsteady, hunread⟩ := h hgenerous
  refine ⟨hhands.steady hsteady (hunbroken hsteady hgenerous.failure), ?_⟩
  have hposition : outcome.stream.position = stream.position + used.length := hconsumes.consumed
  rw [hposition, ← List.drop_drop, ← hunread, hconsumes.unread, List.drop_left]

end ReadStream

namespace Read

namespace Stage

open ReadOperation (unbroken_of_draws)

variable {α β : Type} {setup : Setup} {stage later : Stage}

/-- Whether the stream that is open is in its place. -/
def InPlace (stage : Stage) : Prop := ∀ stream ∈ stage.current, stream.InPlace

theorem InPlace.onStream (h : stage.InPlace) {operation : ReadStream → Outcome ReadStream α}
    (hoperation : ∀ stream : ReadStream, stream.InPlace → (operation stream).stream.InPlace) :
    (stage.onStream operation).2.InPlace := by
  obtain ⟨journal, streams, current⟩ := stage
  cases current with
  | none => exact nofun
  | some stream =>
    intro later hlater
    obtain rfl := Option.some.inj hlater
    exact hoperation stream (h stream rfl)

/-- **No question brings a stream out of its place.** -/
theorem InPlace.answer (h : stage.InPlace) (question : Question) :
    (stage.answer setup question).2.InPlace := by
  cases question with
  | record event => exact h
  | field path kind => exact h
  | position => exact h
  | openFile path =>
    show (stage.openStream setup path).2.InPlace
    unfold openStream
    split
    · exact h
    · intro stream hstream
      obtain rfl := Option.some.inj hstream
      exact ReadStream.inPlace_create _ _ _
  | closeFile path =>
    obtain ⟨journal, streams, current⟩ := stage
    cases current with
    | none => exact h
    | some stream => exact nofun
  | await count =>
    exact h.onStream fun stream hstream => hstream.hands (stream.await_hands count)
      fun hsteady => unbroken_of_draws (stream.await_draws hsteady count)
  | fetch count =>
    exact h.onStream fun stream hstream => hstream.hands (stream.fetch_hands count)
      fun hsteady => unbroken_of_draws (stream.fetch_draws hsteady count)
  | read count =>
    exact h.onStream fun stream hstream => hstream.hands (stream.readBytes_hands count)
      fun hsteady => unbroken_of_draws (stream.readBytes_draws hsteady count)

theorem InPlace.answerAll (h : stage.InPlace) (dialogue : Dialogue Question.Reply α) :
    (stage.answerAll setup dialogue).2.InPlace := by
  induction dialogue generalizing stage with
  | done result => exact h
  | ask question next ih => exact ih _ (h.answer question)

/-- So at whatever a pass reaches the stream is in its place. -/
theorem Reaches.inPlace {part : Plan β} {plan : Plan α} (h : Reaches setup later part stage plan)
    (hstage : stage.InPlace) : later.InPlace := by
  induction h with
  | here => exact hstage
  | first f _ ih => exact ih hstage
  | @next _ _ stage between plan f a hplan _ ih =>
    have hbetween : (stage.answerAll setup plan).2.InPlace := hstage.answerAll plan
    rw [show stage.answerAll setup plan = (.ok a, between) from hplan] at hbetween
    exact ih hbetween

/-! ## Getting what was put -/

/-- `later` is the stage with `bytes` of the open file consumed. -/
structure Passes (stage later : Stage) (bytes : List UInt8) : Prop where
  streams : later.streams = stage.streams
  current : ∀ stream, stage.current = some stream →
    ∃ moved, later.current = some moved ∧ stream.Moves moved bytes

theorem Passes.trans {last : Stage} {xs ys : List UInt8} (h : stage.Passes later xs)
    (h' : later.Passes last ys) : stage.Passes last (xs ++ ys) := by
  refine ⟨h'.streams.trans h.streams, fun stream hstream => ?_⟩
  obtain ⟨moved, hmoved, hmoves⟩ := h.current stream hstream
  obtain ⟨last, hlast, hmoves'⟩ := h'.current moved hmoved
  exact ⟨last, hlast, hmoves.trans hmoves'⟩

/-- Bytes that are next come from the open stream. -/
theorem onStream_passes (operation : ReadStream → Outcome ReadStream (List UInt8))
    {stream : ReadStream} (hcurrent : stage.current = some stream)
    {bytes rest : List UInt8} (hunread : stream.unread = bytes ++ rest)
    (hdraws : ReadStream.Draws stream bytes.length (stream.unread.take bytes.length)
      (stream.unread.take bytes.length) (operation stream)) :
    ∃ later, stage.onStream operation = (.ok bytes, later) ∧ stage.Passes later bytes := by
  obtain ⟨journal, streams, current⟩ := stage
  obtain rfl : current = some stream := hcurrent
  rw [hunread, List.take_left] at hdraws
  obtain ⟨hok, hmoves⟩ := hdraws.enough (by rw [hunread, List.length_append]; omega)
  refine ⟨_, congrArg (·, _) hok, rfl, fun other hother => ?_⟩
  obtain rfl := Option.some.inj hother
  exact ⟨_, rfl, hmoves⟩

section

variable (setup) {stream : ReadStream} (hcurrent : stage.current = some stream)
  (hsteady : stream.Steady) {order : ByteOrder} {rest : List UInt8} (path : String)

include hcurrent hsteady

/-- **Step: what was put is got**, where its bytes are next. -/
theorem follow_get {put : Put} (hput : put.Holds)
    (hunread : stream.unread = put.encode order ++ rest) (f : Put → Decoding α) :
    ∃ later, stage.Passes later (put.encode order) ∧
      stage.follow setup (.decode path (put.get.read order >>= f)) =
        later.follow setup (.decode path (f put)) := by
  have hlength := put.length_encode order
  cases put with
  | int kind n =>
    obtain ⟨later, hanswer, hpasses⟩ :=
      onStream_passes (·.fetch _) hcurrent hunread (ReadStream.fetch_draws hsteady _)
    rw [hlength] at hanswer
    refine ⟨later, hpasses, ?_⟩
    show answerAll setup stage (.ask (.fetch kind.width) _) = _
    rw [answerAll, show stage.answer setup (.fetch kind.width) = _ from hanswer]
    show later.follow setup (.decode path
      (f (.int kind (kind.decode order (kind.encode order n))))) = _
    rw [IntKind.decode_encode order hput]
  | float kind bits =>
    obtain ⟨later, hanswer, hpasses⟩ :=
      onStream_passes (·.fetch _) hcurrent hunread (ReadStream.fetch_draws hsteady _)
    rw [hlength] at hanswer
    refine ⟨later, hpasses, ?_⟩
    show answerAll setup stage (.ask (.fetch kind.width) _) = _
    rw [answerAll, show stage.answer setup (.fetch kind.width) = _ from hanswer]
    show later.follow setup (.decode path
      (f (.float kind (order.number (order.bytes kind.width bits))))) = _
    rw [order.number_bytes kind.width bits hput]
  | raw bytes =>
    obtain ⟨later, hanswer, hpasses⟩ :=
      onStream_passes (·.readBytes _) hcurrent hunread (ReadStream.readBytes_draws hsteady _)
    refine ⟨later, hpasses, ?_⟩
    show answerAll setup stage (.ask (.read bytes.length) _) = _
    rw [answerAll, show stage.answer setup (.read bytes.length) = _ from hanswer]
    rfl

/-- **Run: puts are got one after the other**, whatever comes behind them. -/
theorem follow_gets {puts : List Put} (hputs : ∀ put ∈ puts, put.Holds)
    (hunread : stream.unread = Put.encodeAll order puts ++ rest) (f : List Put → Decoding α) :
    ∃ later, stage.Passes later (Put.encodeAll order puts) ∧
      stage.follow setup (.decode path (Get.all order (puts.map Put.get) >>= f)) =
        later.follow setup (.decode path (f puts)) := by
  induction puts generalizing stage stream f with
  | nil =>
    refine ⟨stage, ⟨rfl, fun other hother => ⟨other, hother, .refl ?_⟩⟩, rfl⟩
    rwa [← Option.some.inj (hcurrent.symm.trans hother)]
  | cons put others ih =>
    obtain ⟨hput, hothers⟩ := List.forall_mem_cons.mp hputs
    rw [Put.encodeAll, List.flatMap_cons, List.append_assoc] at hunread
    have hall : Get.all order ((put :: others).map Put.get) >>= f =
        put.get.read order >>= fun put => Get.all order (others.map Put.get) >>= fun puts =>
          f (put :: puts) := by
      rw [List.map_cons, Get.all, Decoding.bind_assoc]
      exact congrArg _ (funext fun put => Decoding.bind_assoc _ _ _)
    obtain ⟨between, hpasses, hfollow⟩ := follow_get setup hcurrent hsteady path hput hunread
      fun put => Get.all order (others.map Put.get) >>= fun puts => f (put :: puts)
    obtain ⟨moved, hmoved, hmoves⟩ := hpasses.current stream hcurrent
    have hrest : moved.unread = Put.encodeAll order others ++ rest :=
      List.append_cancel_left (hmoves.unread.symm.trans hunread)
    obtain ⟨later, hpasses', hfollow'⟩ := ih hmoved hmoves.steady hothers hrest
      fun puts => f (put :: puts)
    rw [hall]
    exact ⟨later, hpasses.trans hpasses', hfollow.trans hfollow'⟩

end

end Stage

end Read

end ByteLayout
