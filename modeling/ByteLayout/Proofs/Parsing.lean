import ByteLayout.Proofs.ReadBack
import ByteLayout.Proofs.Reading
import ByteLayout.Proofs.RoundTrip

/-!
# Plans as parsers

A plan that reads one open file from its sources as a **parser**: it is given the unread bytes, and
ends with a result and the bytes that are left (`Plan.parse`). It ends early with an error of its
own, or because there are too few bytes.

A plan goes **forward** if it only consumes bytes and takes notes, and passes errors on; all plans
of layouts without decoders do, within a file. What such a plan parses depends on the bytes that it
consumes, and on these alone: whatever follows is left over, and if a part is missing it falls short
(`Plan.Forward.parse_eq_ok`).

**Theorem (`Stage.answerAll_parse`).** Answered from the open stream, a forward plan does what it
does as a parser of the unread bytes.

**Theorem (`Schema.read_consumed`).** A read pass that has consumed some bytes has the same result
whatever follows them, and fails at the end of the input if some of them are missing.
-/

namespace ByteLayout

namespace Read

namespace Plan

variable {α β : Type}

/-- Consumes a run of bytes and goes on with it. -/
def consume (count : Nat)
    (after : List UInt8 → List UInt8 → Except (Option Error) (α × List UInt8))
    (bytes : List UInt8) : Except (Option Error) (α × List UInt8) :=
  if count ≤ bytes.length then after (bytes.take count) (bytes.drop count) else .error none

/-- Runs a plan on bytes: its result and the bytes left over, or else the error with which it ends,
or none if there are too few bytes. A plan that asks for more than bytes cannot be run. -/
def parse : Plan α → List UInt8 → Except (Option Error) (α × List UInt8)
  | .done (.ok a), bytes => .ok (a, bytes)
  | .done (.error error), _ => .error (some error)
  | .ask (.record _) next, bytes => parse (next ()) bytes
  | .ask (.field _ _) next, bytes => parse (next ()) bytes
  | .ask (.fetch count) next, bytes => consume count (fun first => parse (next (.ok first))) bytes
  | .ask (.read count) next, bytes => consume count (fun first => parse (next (.ok first))) bytes
  | .ask _ _, _ => .error none

/-- Whether a plan only consumes bytes and takes notes, and passes errors on. -/
def Forward : Plan α → Prop
  | .done _ => True
  | .ask (.record _) next => Forward (next ())
  | .ask (.field _ _) next => Forward (next ())
  | .ask (.fetch _) next =>
    (∀ bytes, Forward (next (.ok bytes))) ∧ ∀ error, next (.error error) = .done (.error error)
  | .ask (.read _) next =>
    (∀ bytes, Forward (next (.ok bytes))) ∧ ∀ error, next (.error error) = .done (.error error)
  | .ask _ _ => False

/-! ## Plans one after the other -/

theorem consume_bind (count : Nat)
    (after : List UInt8 → List UInt8 → Except (Option Error) (α × List UInt8))
    (f : α × List UInt8 → Except (Option Error) (β × List UInt8)) (bytes : List UInt8) :
    (consume count after bytes).bind f =
      consume count (fun first rest => (after first rest).bind f) bytes := by
  unfold consume
  split <;> rfl

/-- The second plan parses what the first has left over. -/
theorem parse_bind (f : α → Plan β) : ∀ (plan : Plan α) (bytes : List UInt8),
    (plan >>= f).parse bytes = (plan.parse bytes).bind fun parsed => (f parsed.1).parse parsed.2
  | .done (.ok _), _ => rfl
  | .done (.error _), _ => rfl
  | .ask (.record _) next, bytes => parse_bind f (next ()) bytes
  | .ask (.field _ _) next, bytes => parse_bind f (next ()) bytes
  | .ask (.fetch count) next, bytes => by
    refine Eq.trans ?_ (consume_bind count _ _ bytes).symm
    exact congrArg (consume count · bytes)
      (funext fun first => funext fun rest => parse_bind f (next (.ok first)) rest)
  | .ask (.read count) next, bytes => by
    refine Eq.trans ?_ (consume_bind count _ _ bytes).symm
    exact congrArg (consume count · bytes)
      (funext fun first => funext fun rest => parse_bind f (next (.ok first)) rest)
  | .ask (.openFile _) _, _ => rfl
  | .ask (.closeFile _) _, _ => rfl
  | .ask (.await _) _, _ => rfl
  | .ask .position _, _ => rfl

theorem parse_bind_eq_ok {plan : Plan α} {f : α → Plan β} {bytes rest : List UInt8} {b : β} :
    (plan >>= f).parse bytes = .ok (b, rest) ↔
      ∃ a middle, plan.parse bytes = .ok (a, middle) ∧ (f a).parse middle = .ok (b, rest) := by
  rw [parse_bind]
  cases plan.parse bytes with
  | ok parsed => simp [Except.bind, Prod.ext_iff]
  | error error => simp [Except.bind]

theorem forward_bind {f : α → Plan β} (hf : ∀ a, (f a).Forward) :
    ∀ plan : Plan α, plan.Forward → (plan >>= f).Forward
  | .done (.ok a), _ => hf a
  | .done (.error _), _ => trivial
  | .ask (.record _) next, h => forward_bind hf (next ()) h
  | .ask (.field _ _) next, h => forward_bind hf (next ()) h
  | .ask (.fetch _) next, ⟨hgo, hstop⟩ =>
    ⟨fun bytes => forward_bind hf (next (.ok bytes)) (hgo bytes),
      fun error => congrArg (Plan.bind · f) (hstop error)⟩
  | .ask (.read _) next, ⟨hgo, hstop⟩ =>
    ⟨fun bytes => forward_bind hf (next (.ok bytes)) (hgo bytes),
      fun error => congrArg (Plan.bind · f) (hstop error)⟩

theorem forward_closed : Closed fun _ plan => plan.Forward where
  done _ := trivial
  bind hplan hf := forward_bind hf _ hplan
  event _ := trivial
  field _ _ := trivial
  fetch _ := ⟨fun _ => trivial, fun _ => rfl⟩
  read _ := ⟨fun _ => trivial, fun _ => rfl⟩

/-! ## What a parser depends on -/

/-- Whether a parser depends exactly on the bytes that it consumes: it leaves over whatever follows
them, and falls short if some of them are missing. -/
def Exact (parser : List UInt8 → Except (Option Error) (α × List UInt8)) : Prop :=
  ∀ (bytes rest : List UInt8) (a : α), parser bytes = .ok (a, rest) →
    ∃ used, bytes = used ++ rest ∧ (∀ more, parser (used ++ more) = .ok (a, more)) ∧
      ∀ fewer lost, lost ≠ [] → used = fewer ++ lost → parser fewer = .error none

/-- A run of bytes in front of an exact parser. -/
theorem exact_consume {count : Nat}
    {after : List UInt8 → List UInt8 → Except (Option Error) (α × List UInt8)}
    (h : ∀ first, Exact (after first)) : Exact (consume count after) := by
  unfold consume
  intro bytes rest a hparse
  dsimp only at hparse ⊢
  by_cases hcount : count ≤ bytes.length
  · rw [if_pos hcount] at hparse
    obtain ⟨used, hused, hmore, hfewer⟩ := h _ _ _ _ hparse
    have hlength : (bytes.take count).length = count := List.length_take_of_le hcount
    refine ⟨bytes.take count ++ used, ?_, fun more => ?_, fun fewer lost hlost hsplit => ?_⟩
    · rw [List.append_assoc, ← hused, List.take_append_drop]
    · rw [List.append_assoc, if_pos (by simp [hcount]), List.take_left' hlength,
        List.drop_left' hlength]
      exact hmore more
    · by_cases hfirst : count ≤ fewer.length
      · have htake := congrArg (List.take count) hsplit
        have hdrop := congrArg (List.drop count) hsplit
        rw [List.take_left' hlength, List.take_append_of_le_length hfirst] at htake
        rw [List.drop_left' hlength, List.drop_append_of_le_length hfirst] at hdrop
        rw [if_pos hfirst, ← htake]
        exact hfewer _ lost hlost hdrop
      · rw [if_neg hfirst]
  · rw [if_neg hcount] at hparse
    cases hparse

/-- **A forward plan depends exactly on the bytes that it consumes.** -/
theorem exact_parse : ∀ plan : Plan α, plan.Forward → Exact plan.parse
  | .done (.ok a), _ => by
    rintro bytes rest _ ⟨⟩
    refine ⟨[], rfl, fun more => rfl, fun fewer lost hlost hused => ?_⟩
    exact absurd (List.append_eq_nil_iff.mp hused.symm).2 hlost
  | .done (.error _), _ => fun _ _ _ hparse => nomatch hparse
  | .ask (.record _) next, h => exact_parse (next ()) h
  | .ask (.field _ _) next, h => exact_parse (next ()) h
  | .ask (.fetch _) next, ⟨hgo, _⟩ => exact_consume fun first =>
    exact_parse (next (.ok first)) (hgo first)
  | .ask (.read _) next, ⟨hgo, _⟩ => exact_consume fun first =>
    exact_parse (next (.ok first)) (hgo first)

end Plan

theorem Pass.forward_closed (pass : Pass) :
    pass.Closed (fun _ plan => plan.Forward) (fun scope => scope.file.isSome) Kind.BuiltIn where
  toClosed := Plan.forward_closed
  withOrder _ hscope := hscope
  inField _ hscope := hscope
  item _ hscope := hscope
  enterDir _ hscope := hscope
  file relative record content hscope _ := by
    -- files do not nest, so within a file the plan of a file fails at once
    obtain ⟨path, hpath⟩ := Option.isSome_iff_exists.mp hscope
    unfold Pass.inFile Scope.enterFile
    rw [hpath]
    exact trivial
  decode hcodec _ _ := absurd hcodec id

/-! ## Parsing the open stream -/

namespace Stage

variable {α β : Type} {setup : Setup}

theorem answerAll_bind (f : α → Dialogue Question.Reply β) :
    ∀ (dialogue : Dialogue Question.Reply α) (stage : Stage),
      stage.answerAll setup (dialogue.bind f) =
        (stage.answerAll setup dialogue).2.answerAll setup
          (f (stage.answerAll setup dialogue).1)
  | .done _, _ => rfl
  | .ask question _, stage => answerAll_bind f _ (stage.answer setup question).2

/-- Answers a whole plan. -/
def follow (setup : Setup) (stage : Stage) (plan : Plan α) : Except Error α × Stage :=
  stage.answerAll setup plan

theorem follow_bind (stage : Stage) (plan : Plan α) (f : α → Plan β) :
    stage.follow setup (plan >>= f) =
      match stage.follow setup plan with
      | (.ok a, later) => later.follow setup (f a)
      | (.error error, later) => (.error error, later) := by
  refine (answerAll_bind _ plan stage).trans ?_
  unfold follow
  rcases stage.answerAll setup plan with ⟨_ | _, later⟩ <;> rfl

/-- What becomes of a stage and of its open stream when bytes are parsed. -/
def Parses (stage : Stage) (stream : ReadStream) (answer : Except Error α × Stage) :
    Except (Option Error) (α × List UInt8) → Prop
  | .ok (a, rest) => answer.1 = .ok a ∧ answer.2.streams = stage.streams ∧
    ∃ moved bytes, answer.2.current = some moved ∧ stream.Moves moved bytes ∧ moved.unread = rest
  | .error (some error) => answer.1 = .error error
  | .error none => ∃ error, answer.1 = .error error ∧ stream.Lacks error

/-- Bytes are consumed from the open stream. -/
theorem onStream_parses {stage : Stage} {stream : ReadStream}
    (hcurrent : stage.current = some stream) {count : Nat}
    {operation : ReadStream → Outcome ReadStream (List UInt8)}
    (hdraws : ReadStream.Draws stream count (stream.unread.take count) (stream.unread.take count)
      (operation stream)) :
    stage.Parses stream (stage.onStream operation)
      (Plan.consume count (fun first rest => .ok (first, rest)) stream.unread) := by
  obtain ⟨journal, streams, current⟩ := stage
  obtain rfl : current = some stream := hcurrent
  unfold Plan.consume
  by_cases hcount : count ≤ stream.unread.length
  · obtain ⟨hok, hmoves⟩ := hdraws.enough hcount
    rw [if_pos hcount]
    refine ⟨hok, rfl, _, _, rfl, hmoves, ?_⟩
    exact List.append_cancel_left (hmoves.unread.symm.trans (List.take_append_drop _ _).symm)
  · rw [if_neg hcount]
    exact hdraws.short (Nat.lt_of_not_le hcount)

/-- A question that consumes bytes, and what comes behind it. -/
theorem Parses.consume {stage : Stage} {stream : ReadStream} {count : Nat}
    {answer : Except Error (List UInt8) × Stage}
    {next : Except Error (List UInt8) → Plan α}
    (hanswer : stage.Parses stream answer
      (Plan.consume count (fun first rest => .ok (first, rest)) stream.unread))
    (hstop : ∀ error, next (.error error) = .done (.error error))
    (hnext : ∀ first later moved, later.current = some moved → moved.Steady →
      Stage.Parses later moved (later.answerAll setup (next (.ok first)))
        ((next (.ok first)).parse moved.unread)) :
    stage.Parses stream (answer.2.answerAll setup (next answer.1))
      (Plan.consume count (fun first => (next (.ok first)).parse) stream.unread) := by
  unfold Plan.consume at hanswer ⊢
  by_cases hcount : count ≤ stream.unread.length
  · rw [if_pos hcount] at hanswer ⊢
    obtain ⟨hok, hstreams, moved, bytes, hcurrent, hmoves, hunread⟩ := hanswer
    have hlater := hnext (stream.unread.take count) answer.2 moved hcurrent hmoves.steady
    rw [hunread] at hlater
    rw [hok]
    show stage.Parses stream _
      ((next (.ok (stream.unread.take count))).parse (stream.unread.drop count))
    cases hparse : (next (.ok (stream.unread.take count))).parse (stream.unread.drop count) with
    | ok parsed =>
      rw [hparse] at hlater
      obtain ⟨hresult, hsame, last, more, hlast, hmoved, hrest⟩ := hlater
      exact ⟨hresult, hsame.trans hstreams, last, bytes ++ more, hlast, hmoves.trans hmoved, hrest⟩
    | error error =>
      rw [hparse] at hlater
      cases error with
      | some error => exact hlater
      | none =>
        obtain ⟨error, herror, hlacks⟩ := hlater
        exact ⟨error, herror, hmoves.lacks hlacks⟩
  · rw [if_neg hcount] at hanswer ⊢
    obtain ⟨error, herror, hlacks⟩ := hanswer
    rw [herror, hstop]
    exact ⟨error, rfl, hlacks⟩

/-- **A forward plan is a parser of what is unread.** -/
theorem answerAll_parse : ∀ (plan : Plan α), plan.Forward → ∀ {stage : Stage} {stream : ReadStream},
    stage.current = some stream → stream.Steady →
      stage.Parses stream (stage.answerAll setup plan) (plan.parse stream.unread)
  | .done (.ok _), _, _, stream, hcurrent, h =>
    ⟨rfl, rfl, stream, [], hcurrent, .refl h, rfl⟩
  | .done (.error _), _, _, _, _, _ => rfl
  | .ask (.record _) next, hplan, _, _, hcurrent, h => answerAll_parse (next ()) hplan hcurrent h
  | .ask (.field _ _) next, hplan, _, _, hcurrent, h => answerAll_parse (next ()) hplan hcurrent h
  | .ask (.fetch count) next, ⟨hgo, hstop⟩, _, _, hcurrent, h =>
    (onStream_parses hcurrent (ReadStream.fetch_draws h count)).consume hstop
      fun first _ _ => answerAll_parse (next (.ok first)) (hgo first)
  | .ask (.read count) next, ⟨hgo, hstop⟩, _, _, hcurrent, h =>
    (onStream_parses hcurrent (ReadStream.readBytes_draws h count)).consume hstop
      fun first _ _ => answerAll_parse (next (.ok first)) (hgo first)

/-- What becomes of a plan that reads one whole file from a source. -/
def ParsesFile (stage : Stage) (behaviour : SourceBehaviour) (f : α → β)
    (answer : Except Error β × Stage) : Except (Option Error) (α × List UInt8) → Prop
  | .ok (a, rest) => answer.1 = .ok (f a) ∧ answer.2.current = none ∧
    ∃ used, behaviour.data = used ++ rest ∧
      answer.2.streams.toList.map ReadStream.position =
        stage.streams.toList.map ReadStream.position ++ [used.length]
  | .error (some error) => answer.1 = .error error
  | .error none => ∃ error, answer.1 = .error error ∧
    (behaviour.failure = none → ∃ path needed, error = .unexpectedEnd path needed)

/-- A forward plan, between the opening and the closing of a file. -/
theorem follow_file (setup : Setup) (stage : Stage) {path : String} {behaviour : SourceBehaviour}
    (hopen : setup.opener stage.openedPaths path = .ok behaviour) (hflows : behaviour.Flows)
    {content : Plan α} (hcontent : content.Forward) (f : α → β) :
    stage.ParsesFile behaviour f
      (stage.follow setup do
        .openFile path
        let a ← content
        .closeFile path
        return f a)
      (content.parse behaviour.data) := by
  let stream : ReadStream := .create behaviour setup.chunk path
  let opened : Stage :=
    { stage.log [.opened path, .trace (.readReady path setup.chunk)] with current := some stream }
  have hopened : stage.follow setup (.openFile path) = (.ok (), opened) := by
    show stage.openStream setup path = _
    unfold openStream
    simp only [hopen]
    rfl
  have hparses : opened.Parses stream (opened.follow setup content)
      (content.parse behaviour.data) :=
    answerAll_parse content hcontent rfl (ReadStream.steady_create hflows setup.chunk path)
  simp only [follow_bind, hopened]
  generalize opened.follow setup content = answer at hparses ⊢
  obtain ⟨result, later⟩ := answer
  cases hparse : content.parse behaviour.data with
  | error error =>
    rw [hparse] at hparses
    cases error with
    | some error =>
      obtain rfl : result = .error error := hparses
      rfl
    | none =>
      obtain ⟨error, hshort, hlacks⟩ := hparses
      obtain rfl : result = .error error := hshort
      refine ⟨error, rfl, fun hfailure => ⟨path, ?_⟩⟩
      rwa [ReadStream.Lacks, show stream.source.behaviour.failure = none from hfailure] at hlacks
  | ok parsed =>
    rw [hparse] at hparses
    obtain ⟨hok, hstreams, moved, used, hcurrent, hmoves, hunread⟩ := hparses
    obtain rfl : result = .ok parsed.1 := hok
    obtain ⟨journal, streams, current⟩ := later
    obtain rfl : current = some moved := hcurrent
    obtain rfl : streams = stage.streams := hstreams
    have hposition : moved.position = used.length := by
      simpa [stream, ReadStream.create, ReadStream.position] using hmoves.consumed
    refine ⟨rfl, rfl, used, ?_, ?_⟩
    · rw [← hunread]
      exact hmoves.unread
    · show (stage.streams.push moved.close.stream).toList.map ReadStream.position = _
      simp [ReadStream.close, ← hposition, ReadStream.position]

end Stage

end Read

open Read

/-! ## Layouts with one file -/

/-- The plan of the content of a layout's one file, which has a directory and a name. -/
def Schema.contentPlan (schema : Schema) (transform : Option Transform) (user : Value)
    (target : String × String) : Plan (List Value × Fields Value) :=
  let path := Path.resolve target.1 target.2
  Pass.walkAll { user, nest := false } schema.rootSite
    { Scope.base target.1 with trail := path, file := some path } transform [] [schema.root]

theorem Schema.readPlan_single {schema : Schema} (hfiles : schema.fileCount = 0)
    (transform : Option Transform) {options : Options} {target : String × String}
    (htarget : splitTarget options.path = .ok target) :
    schema.readPlan transform options = do
      .event (.trace (.singleFile .read options.path))
      .event (.trace (.opening (Path.resolve target.1 target.2)))
      .openFile (Path.resolve target.1 target.2)
      let (_, record) ← schema.contentPlan transform options.user target
      .closeFile (Path.resolve target.1 target.2)
      return record := by
  unfold readPlan
  rw [if_pos hfiles, htarget, hfiles]
  rfl

theorem Schema.contentPlan_forward {schema : Schema} (hbuiltIn : schema.root.Every Kind.BuiltIn)
    (transform : Option Transform) (user : Value) (target : String × String) :
    (schema.contentPlan transform user target).Forward :=
  Pass.walkAll_closed (Pass.forward_closed _) _ rfl transform [] [schema.root] ⟨hbuiltIn, trivial⟩

/-- Whether an opener brings the same bytes under every path, and what comes behind them: an error
or the end. -/
def Read.SourceOpener.Brings (opener : SourceOpener) (bytes : List UInt8)
    (failure : Option IoError) : Prop :=
  ∀ before path, ∃ behaviour, opener before path = .ok behaviour ∧ behaviour.Flows ∧
    behaviour.data = bytes ∧ behaviour.failure = failure

theorem Read.SourceOpener.Gives.brings {opener : SourceOpener} {bytes : List UInt8}
    (h : opener.Gives bytes) : opener.Brings bytes none := fun before path =>
  have ⟨behaviour, hopen, hgenerous, hdata⟩ := h before path
  ⟨behaviour, hopen, hgenerous.portion, hdata, hgenerous.failure⟩

/-- **A read pass of one file is a parser of its bytes.** -/
theorem Schema.read_parse {schema : Schema} (hfiles : schema.fileCount = 0)
    (hbuiltIn : schema.root.Every Kind.BuiltIn) (transform : Option Transform) (options : Options)
    {target : String × String} (htarget : splitTarget options.path = .ok target)
    {opener : SourceOpener} {bytes : List UInt8} {failure : Option IoError}
    (hopener : opener.Brings bytes failure) :
    let report := schema.read transform options opener
    match (schema.contentPlan transform options.user target).parse bytes with
    | .ok ((_, record), rest) => report.result = .ok record ∧
      ∃ used, bytes = used ++ rest ∧ report.streams.toList.map ReadStream.position = [used.length]
    | .error (some error) => report.result = .error error
    | .error none => ∃ error, report.result = .error error ∧
      (failure = none → ∃ path needed, error = .unexpectedEnd path needed) := by
  intro report
  obtain ⟨behaviour, hopen, hflows, rfl, rfl⟩ := hopener [] (Path.resolve target.1 target.2)
  let setup : Setup := { opener, chunk := options.clamped.bufferSize, debug := options.debug }
  let before : Stage := Stage.log (.log (.log .empty (options.warnings .read))
    [.trace (.singleFile .read options.path)]) [.trace (.opening (Path.resolve target.1 target.2))]
  have hparses := Stage.follow_file setup before hopen hflows
    (schema.contentPlan_forward hbuiltIn transform options.user target) Prod.snd
  generalize hanswer : before.follow setup _ = answer at hparses
  have hreport : report = ⟨answer.1, answer.2.abandon.journal, answer.2.abandon.streams⟩ := by
    subst hanswer
    show (schema.readPlan transform options).answer setup (options.warnings .read) = _
    rw [readPlan_single hfiles transform htarget]
    rfl
  rw [hreport]
  cases hparse : (schema.contentPlan transform options.user target).parse behaviour.data with
  | error error =>
    rw [hparse] at hparses
    cases error <;> exact hparses
  | ok parsed =>
    rw [hparse] at hparses
    obtain ⟨hok, hcurrent, used, hused, hpositions⟩ := hparses
    have habandon : answer.2.abandon = answer.2 := by
      unfold Stage.abandon
      rw [hcurrent]
    rw [habandon]
    exact ⟨hok, used, hused, hpositions⟩

/-- A read pass needs a path with a file name. -/
theorem Schema.read_target {schema : Schema} (hfiles : schema.fileCount = 0)
    {transform : Option Transform} {options : Options} {opener : SourceOpener}
    {value : Fields Value} (hresult : (schema.read transform options opener).result = .ok value) :
    ∃ target, splitTarget options.path = .ok target := by
  cases htarget : splitTarget options.path with
  | ok target => exact ⟨target, rfl⟩
  | error error =>
    have hplan : schema.readPlan transform options = .fail error := by
      unfold readPlan
      rw [if_pos hfiles, htarget]
      rfl
    unfold Schema.read at hresult
    rw [hplan] at hresult
    cases hresult

/-- A read pass that ends well has parsed the first of the bytes, up to its position. -/
theorem Schema.parse_of_read {schema : Schema} (hfiles : schema.fileCount = 0)
    (hbuiltIn : schema.root.Every Kind.BuiltIn) {transform : Option Transform} {options : Options}
    {target : String × String} (htarget : splitTarget options.path = .ok target)
    {opener : SourceOpener} {bytes : List UInt8} {failure : Option IoError}
    (hopener : opener.Brings bytes failure) {value : Fields Value}
    (hresult : (schema.read transform options opener).result = .ok value) :
    ∃ results used rest, bytes = used ++ rest ∧
      (schema.contentPlan transform options.user target).parse bytes =
        .ok ((results, value), rest) ∧
      (schema.read transform options opener).streams.toList.map ReadStream.position =
        [used.length] := by
  have hread := Schema.read_parse hfiles hbuiltIn transform options htarget hopener
  cases hparse : (schema.contentPlan transform options.user target).parse bytes with
  | ok parsed =>
    rw [hparse] at hread
    obtain ⟨hok, used, hused, hpositions⟩ := hread
    cases hresult.symm.trans hok
    exact ⟨_, used, _, hused, rfl, hpositions⟩
  | error error =>
    rw [hparse] at hread
    cases error with
    | some error => cases hresult.symm.trans hread
    | none =>
      obtain ⟨error, herror, -⟩ := hread
      cases hresult.symm.trans herror

/-- What is parsed is read. -/
theorem Schema.read_of_parse {schema : Schema} (hfiles : schema.fileCount = 0)
    (hbuiltIn : schema.root.Every Kind.BuiltIn) {transform : Option Transform} {options : Options}
    {target : String × String} (htarget : splitTarget options.path = .ok target)
    {opener : SourceOpener} {bytes rest : List UInt8} {failure : Option IoError}
    (hopener : opener.Brings bytes failure) {results : List Value} {value : Fields Value}
    (hparse : (schema.contentPlan transform options.user target).parse bytes =
      .ok ((results, value), rest)) :
    (schema.read transform options opener).result = .ok value := by
  have hread := Schema.read_parse hfiles hbuiltIn transform options htarget hopener
  rw [hparse] at hread
  exact hread.1

/-- **A read pass depends exactly on the bytes that it consumes.** If it has read a record from some
bytes, then it has consumed some of the first of them; whatever follows these, it reads the same
record from them; and if some of them are missing, the input ends too early for it, wherever it
ends. The layout has no custom nodes and no files of its own. -/
theorem Schema.read_consumed (schema : Schema) (hfiles : schema.fileCount = 0)
    (hbuiltIn : schema.root.Every Kind.BuiltIn) (transform : Option Transform) (options : Options)
    {opener : SourceOpener} {bytes : List UInt8} (hopener : opener.Gives bytes)
    {value : Fields Value} (hresult : (schema.read transform options opener).result = .ok value) :
    ∃ count ≤ bytes.length,
      (schema.read transform options opener).streams.toList.map ReadStream.position = [count] ∧
      (∀ (more : List UInt8) (size : Nat) (other : SourceOpener),
        other.Gives (bytes.take count ++ more) →
          let again := schema.read transform { options with bufferSize := size } other
          again.result = .ok value ∧
            again.streams.toList.map ReadStream.position = [count]) ∧
      ∀ fewer < count, ∀ (size : Nat) (other : SourceOpener), other.Gives (bytes.take fewer) →
        ∃ path needed, (schema.read transform { options with bufferSize := size } other).result =
          .error (.unexpectedEnd path needed) := by
  obtain ⟨target, htarget⟩ := Schema.read_target hfiles hresult
  have hforward := schema.contentPlan_forward hbuiltIn transform options.user target
  obtain ⟨results, used, rest, rfl, hparse, hpositions⟩ :=
    Schema.parse_of_read hfiles hbuiltIn htarget hopener.brings hresult
  obtain ⟨parsed, hparsed, hmore, hfewer⟩ := Plan.exact_parse _ hforward _ _ _ hparse
  obtain rfl := List.append_cancel_right hparsed
  refine ⟨used.length, by simp, hpositions, fun more size other hother => ?_,
    fun fewer hless size other hother => ?_⟩
  · rw [List.take_left] at hother
    have hagain := Schema.read_parse hfiles hbuiltIn transform
      { options with bufferSize := size } htarget hother.brings
    rw [hmore more] at hagain
    obtain ⟨hok, again, hsame, hpositions⟩ := hagain
    obtain rfl := List.append_cancel_right hsame
    exact ⟨hok, hpositions⟩
  · have hlost : used.drop fewer ≠ [] := by simpa using hless
    rw [List.take_append_of_le_length hless.le] at hother
    have hshort := Schema.read_parse hfiles hbuiltIn transform
      { options with bufferSize := size } htarget hother.brings
    rw [hfewer _ _ hlost (List.take_append_drop fewer used).symm] at hshort
    obtain ⟨error, herror, hend⟩ := hshort
    obtain ⟨path, needed, rfl⟩ := hend rfl
    exact ⟨path, needed, herror⟩

/-- A tag and, if it is one, a byte, and otherwise a text. -/
def choice : Schema :=
  ⟨.ofKind (.order .big [byteField "tag",
    .ofKind (.select fun context =>
      match Fields.get? context.record "tag" with
      | some (.number (.int 1)) => ⟨byteField "value", []⟩
      | _ => ⟨((Node.ofKind (.int .u8)).named "value").withString (.ofKind (.text .utf8)), []⟩)]),
    .root, rfl⟩

theorem choice_builtIn : choice.root.Every Kind.BuiltIn := by
  refine ⟨trivial, trivial, ⟨trivial, trivial, trivial⟩, ⟨trivial, trivial, fun context => ?_⟩,
    trivial⟩
  dsimp only
  split
  · exact ⟨trivial, trivial, trivial⟩
  · exact ⟨trivial, ⟨trivial, trivial, trivial⟩, trivial⟩

/-- A text of two characters behind its tag, with a byte behind it. -/
def choiceBytes : List UInt8 := [0, 2, 72, 105, 33]

theorem gives_ofBytes (bytes : List UInt8) :
    SourceOpener.Gives (fun _ _ => .ok (.ofBytes bytes)) bytes :=
  fun _ _ => ⟨_, rfl, SourceBehaviour.generous_ofBytes bytes, rfl⟩

theorem choice_read :
    (choice.read none taggedOptions fun _ _ => .ok (.ofBytes choiceBytes)).result =
      .ok [("tag", .int 0), ("value", .string "Hi")] := by
  obtain ⟨results, hparse⟩ : ∃ results,
      (choice.contentPlan none taggedOptions.user ("", "out")).parse choiceBytes =
        .ok ((results, [("tag", .int 0), ("value", .string "Hi")]), [33]) := ⟨_, rfl⟩
  exact Schema.read_of_parse rfl choice_builtIn splitTarget_out (gives_ofBytes choiceBytes).brings
    hparse

theorem Schema.read_consumed_choice :
    ∃ count ≤ choiceBytes.length,
      (choice.read none taggedOptions fun _ _ =>
        .ok (.ofBytes choiceBytes)).streams.toList.map ReadStream.position = [count] ∧
      (∀ (more : List UInt8) (size : Nat) (other : SourceOpener),
        other.Gives (choiceBytes.take count ++ more) →
          let again := choice.read none { taggedOptions with bufferSize := size } other
          again.result = .ok [("tag", .int 0), ("value", .string "Hi")] ∧
            again.streams.toList.map ReadStream.position = [count]) ∧
      ∀ fewer < count, ∀ (size : Nat) (other : SourceOpener),
        other.Gives (choiceBytes.take fewer) →
        ∃ path needed, (choice.read none { taggedOptions with bufferSize := size } other).result =
          .error (.unexpectedEnd path needed) :=
  Schema.read_consumed choice rfl choice_builtIn none taggedOptions (gives_ofBytes choiceBytes)
    choice_read

end ByteLayout
