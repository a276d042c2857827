import ByteLayout.Proofs.Enclosed
import ByteLayout.Proofs.Filling
import ByteLayout.Proofs.ReadHistory
import ByteLayout.Proofs.StreamFaults

/-!
# Reading in portions

`fetch` waits for all bytes that are asked for and then takes them; `readBytes` fetches one portion
after the other, none larger than a chunk. `stream.Skips later count` says that `later` is the
stream with `count` of the bytes that are there consumed. Both streams ask their source alike: to
wait for `n` bytes after the first `count` is to wait for `count + n` (`Skips.await`).

**Theorem (`readBytes_portions`).** If so many bytes come, or no more than a chunk was asked for,
reading and fetching do the same. Otherwise a fetch fails having consumed nothing, but a read has
consumed the portions that were complete, and what it says to be missing is what the next portion
lacks.
-/

namespace ByteLayout

/-- The error, with no more than `most` bytes said to be missing. -/
def Error.within (most : Nat) : Error → Error
  | .unexpectedEnd path needed => .unexpectedEnd path (min needed most)
  | error => error

namespace ReadStream

variable {stream later last : ReadStream} {count skipped more : Nat}

/-! ## Streams that are ahead of others -/

/-- `later` is the stream with `count` of the bytes that are there consumed. -/
structure Skips (stream later : ReadStream) (count : Nat) : Prop where
  there : count ≤ stream.available
  resident : later.resident.toList = stream.resident.toList.drop count
  position : later.position = stream.position + count
  source : later.source = stream.source
  chunk : later.chunk = stream.chunk
  complete : later.complete = stream.complete
  state : later.state = stream.state
  path : later.path = stream.path

theorem Skips.refl (stream : ReadStream) : stream.Skips stream 0 :=
  ⟨Nat.zero_le _, rfl, rfl, rfl, rfl, rfl, rfl, rfl⟩

theorem Skips.available (h : stream.Skips later count) :
    later.available = stream.available - count := by
  show later.resident.size = stream.resident.size - count
  rw [← ByteQueue.length_toList, ← ByteQueue.length_toList, h.resident, List.length_drop]

theorem Skips.trans (h : stream.Skips later skipped) (h' : later.Skips last more) :
    stream.Skips last (skipped + more) where
  there := by
    have hfirst := h.there
    have hsecond := h'.there
    rw [h.available] at hsecond
    omega
  resident := by rw [h'.resident, h.resident, List.drop_drop]
  position := by rw [h'.position, h.position, Nat.add_assoc]
  source := h'.source.trans h.source
  chunk := h'.chunk.trans h.chunk
  complete := h'.complete.trans h.complete
  state := h'.state.trans h.state
  path := h'.path.trans h.path

/-- Streams that are ahead of another one by as much differ at most in how the bytes that are there
are laid out. -/
theorem Skips.skips (h : stream.Skips later count) (h' : stream.Skips last count) :
    later.Skips last 0 where
  there := Nat.zero_le _
  resident := h'.resident.trans h.resident.symm
  position := h'.position.trans h.position.symm
  source := h'.source.trans h.source.symm
  chunk := h'.chunk.trans h.chunk.symm
  complete := h'.complete.trans h.complete.symm
  state := h'.state.trans h.state.symm
  path := h'.path.trans h.path.symm

/-- Taking skips what it gives. -/
theorem take_skips (h : count ≤ stream.available) :
    (∃ bytes, (stream.take count).result = .ok bytes) ∧
      stream.Skips (stream.take count).stream count := by
  unfold take
  rw [if_neg (Nat.not_lt.mpr h)]
  exact ⟨⟨_, rfl⟩, h, ByteQueue.toList_pop_snd _ _, rfl, rfl, rfl, rfl, rfl, rfl⟩

/-- A fill brings both streams the same. -/
theorem Skips.fillOnce (h : stream.Skips later skipped) :
    later.fillOnce.result = stream.fillOnce.result ∧
      stream.fillOnce.stream.Skips later.fillOnce.stream skipped := by
  obtain ⟨source, resident, chunk, consumed, complete, state, path⟩ := stream
  obtain ⟨source', resident', chunk', consumed', complete', state', path'⟩ := later
  obtain rfl : source' = source := h.source
  obtain rfl : chunk' = chunk := h.chunk
  obtain rfl : complete' = complete := h.complete
  obtain rfl : path' = path := h.path
  have hresident : resident'.toList = resident.toList.drop skipped := h.resident
  have hthere : skipped ≤ resident.size := h.there
  unfold ReadStream.fillOnce
  dsimp only
  rcases (source'.read chunk').2 with cause | (- | ⟨byte, rest⟩)
  · exact ⟨rfl, hthere, hresident, h.position, rfl, rfl, rfl, rfl, rfl⟩
  · exact ⟨rfl, hthere, hresident, h.position, rfl, rfl, rfl, rfl, rfl⟩
  · refine ⟨rfl, Nat.le_add_right_of_le hthere, ?_, h.position, rfl, rfl, rfl, rfl, rfl⟩
    show (resident'.push (byte :: rest)).toList = (resident.push (byte :: rest)).toList.drop skipped
    rw [ByteQueue.toList_push, ByteQueue.toList_push, hresident, List.drop_append_of_le_length]
    rw [ByteQueue.length_toList]
    exact hthere

theorem Skips.wants (h : stream.Skips later skipped) (count : Nat) :
    later.Wants count ↔ stream.Wants (skipped + count) := by
  have hthere := h.there
  have hshort : later.available < count ↔ stream.available < skipped + count := by
    rw [h.available]
    omega
  exact ⟨fun hwants => ⟨h.state ▸ hwants.live, hshort.mp hwants.short, h.complete ▸ hwants.unended⟩,
    fun hwants => ⟨h.state ▸ hwants.live, hshort.mpr hwants.short, h.complete ▸ hwants.unended⟩⟩

theorem Skips.verdict (h : stream.Skips later skipped) (count : Nat) :
    later.verdict count = stream.verdict (skipped + count) := by
  have hthere := h.there
  have hcount : count ≤ stream.available - skipped ↔ skipped + count ≤ stream.available := by omega
  have hneeded : count - (stream.available - skipped) = skipped + count - stream.available := by
    omega
  unfold ReadStream.verdict
  rw [h.state, h.path, h.available, hneeded]
  simp only [hcount]

/-- **Waiting for `count` bytes more** asks the source as waiting for all of them does. -/
theorem Skips.await (h : stream.Skips later skipped) (count : Nat) :
    (later.await count).result = (stream.await (skipped + count)).result ∧
      (stream.await (skipped + count)).stream.Skips (later.await count).stream skipped := by
  induction stream using waiting (skipped + count) generalizing later with
  | rest stream hrest =>
    rw [await_of_not_wants hrest, await_of_not_wants (mt (h.wants count).mp hrest)]
    exact ⟨h.verdict count, h⟩
  | fill stream hwants ih =>
    rw [await_of_wants hwants, await_of_wants ((h.wants count).mpr hwants)]
    obtain ⟨hresult, hskips⟩ := h.fillOnce
    unfold Outcome.bind
    rw [hresult]
    cases hfill : stream.fillOnce.result with
    | error error => exact ⟨rfl, hskips⟩
    | ok _ => exact ih hfill hskips

/-! ## Waiting for some of the bytes first -/

theorem Wants.mono {first : Nat} (h : stream.Wants first) (hle : first ≤ count) :
    stream.Wants count :=
  ⟨h.live, Nat.lt_of_lt_of_le h.short hle, h.unended⟩

/-- To wait for the first bytes and then for all is to wait for all. -/
theorem await_await {first : Nat} (hle : first ≤ count)
    (hok : (stream.await first).result = .ok ()) :
    ((stream.await first).stream.await count).result = (stream.await count).result ∧
      ((stream.await first).stream.await count).stream = (stream.await count).stream := by
  induction stream using waiting first with
  | rest stream hrest =>
    rw [await_of_not_wants hrest]
    exact ⟨rfl, rfl⟩
  | fill stream hwants ih =>
    rw [await_of_wants hwants] at hok ⊢
    rw [await_of_wants (hwants.mono hle)]
    unfold Outcome.bind at hok ⊢
    cases hfill : stream.fillOnce.result with
    | error error =>
      rw [hfill] at hok
      cases hok
    | ok _ =>
      rw [hfill] at hok
      exact ih hfill hok

/-- Where the first bytes do not come, the others do not either. What is missing counts from the
bytes that are there. -/
theorem await_short_of {first : Nat} (hle : first ≤ count) (hlive : stream.state.isOver = false)
    {error : Error} (herror : (stream.await first).result = .error error) :
    (stream.await count).stream = (stream.await first).stream ∧
      (stream.await first).stream.available < first ∧
      ((∃ cause, error = .io stream.path cause ∧ (stream.await count).result = .error error) ∨
        error = .unexpectedEnd stream.path (first - (stream.await first).stream.available) ∧
          (stream.await count).result = .error
            (.unexpectedEnd stream.path (count - (stream.await first).stream.available))) := by
  induction stream using waiting first with
  | rest stream hrest =>
    rw [await_of_not_wants hrest] at herror ⊢
    have hshort : stream.available < first := by
      by_contra henough
      rw [verdict_of_available hlive (Nat.le_of_not_lt henough)] at herror
      cases herror
    have hrest' : ¬stream.Wants count := fun hwants => hrest ⟨hlive, hshort, hwants.unended⟩
    rw [await_of_not_wants hrest', verdict_of_short hlive (Nat.lt_of_lt_of_le hshort hle)]
    rw [verdict_of_short hlive hshort] at herror
    exact ⟨rfl, hshort, .inr ⟨(Except.error.inj herror).symm, rfl⟩⟩
  | fill stream hwants ih =>
    rw [await_of_wants hwants] at herror ⊢
    rw [await_of_wants (hwants.mono hle)]
    unfold Outcome.bind at herror ⊢
    cases hfill : stream.fillOnce.result with
    | error failure =>
      rw [hfill] at herror
      obtain rfl := Except.error.inj herror
      obtain ⟨⟨cause, hcause⟩, -, hresident⟩ := fillOnce_failed hfill
      refine ⟨rfl, ?_, .inl ⟨cause, hcause, rfl⟩⟩
      show stream.fillOnce.stream.resident.size < first
      rw [hresident]
      exact hwants.short
    | ok _ =>
      rw [hfill] at herror
      have hrest := ih hfill (fillOnce_live hfill) herror
      rw [(fillOnce_asks stream).2.2.2] at hrest
      exact hrest

/-! ## Fetching -/

theorem fetch_of_await_error {error : Error} (h : (stream.await count).result = .error error) :
    (stream.fetch count).result = .error error ∧
      (stream.fetch count).stream = (stream.await count).stream := by
  unfold fetch Outcome.bind
  rw [h]
  exact ⟨rfl, rfl⟩

theorem fetch_of_await_ok (h : (stream.await count).result = .ok ()) :
    (stream.fetch count).result = ((stream.await count).stream.take count).result ∧
      (stream.fetch count).stream = ((stream.await count).stream.take count).stream := by
  unfold fetch Outcome.bind
  rw [h]
  exact ⟨rfl, rfl⟩

/-! ## Portions -/

/-- What a read of `count` bytes does, beside waiting for all of them: it consumes as many chunks as
come, and lacks no more than the next. -/
structure Portioned (stream : ReadStream) (count : Nat)
    (outcome : Outcome ReadStream (List UInt8)) : Prop where
  ok : (stream.await count).result = .ok () →
    (∃ bytes, outcome.result = .ok bytes) ∧
      (stream.await count).stream.Skips outcome.stream count
  failed : ∀ error, (stream.await count).result = .error error →
    outcome.result = .error
      (error.within (stream.chunk - (stream.await count).stream.available % stream.chunk)) ∧
    (stream.await count).stream.Skips outcome.stream
      (stream.chunk * ((stream.await count).stream.available / stream.chunk))

/-- The first portion does not come. -/
theorem portioned_of_error (hlive : stream.state.isOver = false) {portion : Nat}
    (hportion : portion = min count stream.chunk) {error : Error}
    (herror : (stream.await portion).result = .error error) {events : List Event} :
    Portioned stream count ⟨.error error, (stream.await portion).stream, events⟩ := by
  have hle : portion ≤ count := by omega
  obtain ⟨hsame, hshort, hmissing⟩ := await_short_of hle hlive herror
  have hchunk : (stream.await portion).stream.available < stream.chunk := by omega
  refine ⟨fun hok => ?_, fun failure hfailure => ?_⟩
  · rcases hmissing with ⟨_, _, hresult⟩ | ⟨_, hresult⟩ <;> cases hok.symm.trans hresult
  rw [hsame, Nat.mod_eq_of_lt hchunk, Nat.div_eq_of_lt hchunk, Nat.mul_zero]
  refine ⟨?_, .refl _⟩
  rcases hmissing with ⟨cause, rfl, hresult⟩ | ⟨rfl, hresult⟩
  · obtain rfl := Except.error.inj (hfailure.symm.trans hresult)
    rfl
  · obtain rfl := Except.error.inj (hfailure.symm.trans hresult)
    -- the portion is a whole chunk, or all that is asked for
    have hneeded : portion - (stream.await portion).stream.available =
        min (count - (stream.await portion).stream.available)
          (stream.chunk - (stream.await portion).stream.available) := by
      omega
    rw [hneeded]
    rfl

/-- The first portion comes, and `later` goes on behind it. -/
theorem portioned_of_ok (hchunk : 0 < stream.chunk) {portion : Nat}
    (hportion : portion = min count stream.chunk) (hok : (stream.await portion).result = .ok ())
    (hskips : (stream.await portion).stream.Skips later portion)
    {outcome : Outcome ReadStream (List UInt8)} (h : Portioned later (count - portion) outcome) :
    Portioned stream count outcome := by
  have hle : portion ≤ count := by omega
  obtain ⟨hresult, hstream⟩ := await_await hle hok
  obtain ⟨hresult', hahead⟩ := hskips.await (count - portion)
  rw [Nat.add_sub_of_le hle] at hresult' hahead
  rw [hresult] at hresult'
  rw [hstream] at hahead
  have hsize : later.chunk = stream.chunk := hskips.chunk.trans (chunk_await stream portion)
  refine ⟨fun hall => ?_, fun error herror => ?_⟩
  · obtain ⟨hbytes, hlast⟩ := h.ok (hresult'.trans hall)
    have hboth := hahead.trans hlast
    rw [Nat.add_sub_of_le hle] at hboth
    exact ⟨hbytes, hboth⟩
  · obtain ⟨hfailed, hlast⟩ := h.failed error (hresult'.trans herror)
    -- a portion smaller than a chunk is the last, so all bytes would have come
    have hfull : portion = stream.chunk := by
      by_contra hless
      obtain rfl : portion = count := by omega
      cases hok.symm.trans herror
    have hthere := hahead.there
    rw [hahead.available, hsize, hfull] at hfailed hlast
    rw [hfull] at hthere hahead
    refine ⟨?_, ?_⟩
    · rw [hfailed, Nat.mod_eq_sub_mod hthere]
    · have hboth := hahead.trans hlast
      rw [Nat.div_eq_sub_div hchunk hthere, Nat.mul_succ, Nat.add_comm]
      exact hboth

/-- Portions are read one after the other, up to the first that does not come. -/
theorem collect_portioned {stream : ReadStream} (hlive : stream.state.isOver = false)
    (hchunk : 0 < stream.chunk) (count : Nat) (before : Array UInt8) (events : List Event) :
    Portioned stream count (stream.collect count before events) := by
  rw [collect]
  by_cases hzero : count = 0
  · subst hzero
    have hawait := await_of_available hlive (Nat.zero_le stream.available)
    rw [if_pos rfl]
    refine ⟨fun _ => ⟨⟨_, rfl⟩, ?_⟩, fun error herror => ?_⟩
    · rw [hawait]
      exact .refl stream
    · rw [hawait] at herror
      cases herror
  rw [if_neg hzero]
  have hportion : max 1 (min count stream.chunk) = min count stream.chunk := by omega
  have hpositive : 0 < max 1 (min count stream.chunk) := by omega
  dsimp only
  generalize max 1 (min count stream.chunk) = portion at hportion hpositive ⊢
  cases hawait : (stream.await portion).result with
  | error error =>
    obtain ⟨hresult, hstream⟩ := fetch_of_await_error hawait
    rw [hresult, hstream]
    exact portioned_of_error hlive hportion hawait
  | ok _ =>
    obtain ⟨hresult, hstream⟩ := fetch_of_await_ok hawait
    obtain ⟨⟨bytes, hbytes⟩, hskips⟩ := take_skips (available_of_await hawait)
    rw [hresult, hbytes, hstream]
    refine portioned_of_ok hchunk hportion hawait hskips (collect_portioned ?_ ?_ _ _ _)
    · rw [hskips.state, (await_endures stream portion).isOver () hawait]
      exact hlive
    · rw [hskips.chunk, chunk_await]
      exact hchunk
termination_by count
decreasing_by omega

theorem readBytes_portioned (hlive : stream.state.isOver = false) (hchunk : 0 < stream.chunk)
    (count : Nat) : Portioned stream count (stream.readBytes count) :=
  collect_portioned hlive hchunk count #[] []

/-! ## Reading and fetching -/

/-- Waiting fails only where too few bytes are there, with the source or at its end. -/
theorem await_failed (hlive : stream.state.isOver = false) {error : Error}
    (herror : (stream.await count).result = .error error) :
    (stream.await count).stream.available < count ∧
      ((∃ cause, error = .io stream.path cause) ∨
        error = .unexpectedEnd stream.path (count - (stream.await count).stream.available)) := by
  obtain ⟨-, hshort, hmissing⟩ := await_short_of (Nat.le_refl count) hlive herror
  refine ⟨hshort, hmissing.imp ?_ And.left⟩
  rintro ⟨cause, hcause, -⟩
  exact ⟨cause, hcause⟩

/-- Where so many bytes come, reading is fetching. -/
theorem Portioned.alike_of_ok (h : Portioned stream count (stream.readBytes count))
    (hok : (stream.await count).result = .ok ()) :
    (stream.readBytes count).result = (stream.fetch count).result ∧
      (stream.fetch count).stream.Skips (stream.readBytes count).stream 0 := by
  obtain ⟨⟨bytes, hbytes⟩, hread⟩ := h.ok hok
  obtain ⟨hresult, hstream⟩ := fetch_of_await_ok hok
  obtain ⟨⟨taken, htaken⟩, htake⟩ := take_skips (available_of_await hok)
  rw [htaken] at hresult
  rw [← hstream] at htake
  have hsame : bytes = taken :=
    ((readBytes_hands stream count).run_ok hbytes).1.trans
      ((fetch_hands stream count).run_ok hresult).1.symm
  exact ⟨by rw [hbytes, hresult, hsame], htake.skips hread⟩

/-- Where no more than a chunk is asked for, reading fails as fetching does. -/
theorem Portioned.alike_of_error (h : Portioned stream count (stream.readBytes count))
    (hlive : stream.state.isOver = false) (hcount : count ≤ stream.chunk) {error : Error}
    (herror : (stream.await count).result = .error error) :
    (stream.readBytes count).result = (stream.fetch count).result ∧
      (stream.fetch count).stream.Skips (stream.readBytes count).stream 0 := by
  obtain ⟨hshort, hmissing⟩ := await_failed hlive herror
  obtain ⟨hresult, hskips⟩ := h.failed error herror
  obtain ⟨hfetch, hstream⟩ := fetch_of_await_error herror
  have hchunk := Nat.lt_of_lt_of_le hshort hcount
  rw [Nat.div_eq_of_lt hchunk, Nat.mul_zero] at hskips
  rw [Nat.mod_eq_of_lt hchunk] at hresult
  rw [hresult, hfetch, hstream]
  refine ⟨congrArg Except.error ?_, hskips⟩
  rcases hmissing with ⟨cause, rfl⟩ | rfl
  · rfl
  · have hless : count - (stream.await count).stream.available ≤
        stream.chunk - (stream.await count).stream.available := by
      omega
    rw [Error.within, Nat.min_eq_left hless]

/-- What a read and a fetch of `count` bytes have to do with each other. -/
structure Compared (stream : ReadStream) (count : Nat) : Prop where
  /-- If so many bytes come, or no more than a chunk is asked for, both have the same result and
  leave the same stream, however the bytes that are there are laid out. -/
  same : (stream.await count).result = .ok () ∨ count ≤ stream.chunk →
    (stream.readBytes count).result = (stream.fetch count).result ∧
      (stream.fetch count).stream.Skips (stream.readBytes count).stream 0
  /-- Otherwise the fetch fails as waiting does and consumes nothing, -/
  fetch : ∀ error, (stream.await count).result = .error error →
    (stream.fetch count).result = .error error ∧
      (stream.fetch count).stream = (stream.await count).stream ∧
      (stream.fetch count).stream.position = stream.position
  /-- and what it lacks counts from the bytes that are there; -/
  needed : ∀ path needed, (stream.fetch count).result = .error (.unexpectedEnd path needed) →
    needed = count - (stream.fetch count).stream.available
  /-- the read consumes the whole chunks that are there, and says what the next one lacks. -/
  read : ∀ error, (stream.await count).result = .error error →
    (stream.readBytes count).result = .error
      (error.within (stream.chunk - (stream.fetch count).stream.available % stream.chunk)) ∧
    (stream.fetch count).stream.Skips (stream.readBytes count).stream
      (stream.chunk * ((stream.fetch count).stream.available / stream.chunk))
  /-- So a read that fails consumes nothing if and only if less than a chunk is there. -/
  nothing : ∀ error, (stream.await count).result = .error error →
    ((stream.readBytes count).stream.position = stream.position ↔
      (stream.fetch count).stream.available < stream.chunk)

/-- **Reading in portions is fetching**, as long as the bytes come; where they do not, a read has
consumed the whole chunks that are there. -/
theorem readBytes_portions (hlive : stream.state.isOver = false) (hchunk : 0 < stream.chunk)
    (count : Nat) : stream.Compared count := by
  have hread := readBytes_portioned hlive hchunk count
  refine ⟨fun henough => ?_, fun error herror => ?_, fun path needed hneeded => ?_,
    fun error herror => ?_, fun error herror => ?_⟩
  · cases hawait : (stream.await count).result with
    | ok _ => exact hread.alike_of_ok hawait
    | error error =>
      rcases henough with hok | hcount
      · cases hok.symm.trans hawait
      · exact hread.alike_of_error hlive hcount hawait
  · obtain ⟨hresult, hstream⟩ := fetch_of_await_error herror
    refine ⟨hresult, hstream, ?_⟩
    rw [hstream]
    exact (await_consumes stream count).consumed
  · cases hawait : (stream.await count).result with
    | ok _ =>
      obtain ⟨hresult, -⟩ := fetch_of_await_ok hawait
      obtain ⟨⟨taken, htaken⟩, -⟩ := take_skips (available_of_await hawait)
      cases hneeded.symm.trans (hresult.trans htaken)
    | error error =>
      obtain ⟨hresult, hstream⟩ := fetch_of_await_error hawait
      obtain rfl := Except.error.inj (hresult.symm.trans hneeded)
      rw [hstream]
      rcases (await_failed hlive hawait).2 with ⟨cause, hcause⟩ | hend
      · cases hcause
      · exact (Error.unexpectedEnd.inj hend).2
  · rw [(fetch_of_await_error herror).2]
    exact hread.failed error herror
  · obtain ⟨-, hskips⟩ := hread.failed error herror
    have hposition : (stream.await count).stream.position = stream.position :=
      (await_consumes stream count).consumed
    rw [(fetch_of_await_error herror).2, hskips.position, hposition, Nat.add_eq_left,
      Nat.mul_eq_zero, Nat.div_eq_zero_iff]
    omega

/-- Five bytes that are read two at a time. Eight are asked for: the read has consumed four of them
and lacks one, the fetch has consumed none and lacks three. -/
theorem readBytes_portions_fiveBytes :
    let stream := create (.ofBytes [1, 2, 3, 4, 5]) 2 "x"
    stream.state.isOver = false ∧ 0 < stream.chunk ∧ stream.Compared 8 ∧
      (stream.fetch 8).result = .error (.unexpectedEnd "x" 3) ∧
      (stream.fetch 8).stream.position = 0 ∧
      (stream.readBytes 8).result = .error (.unexpectedEnd "x" 1) ∧
      (stream.readBytes 8).stream.position = 4 := by
  intro stream
  have hcompared : stream.Compared 8 := readBytes_portions rfl (by decide) 8
  have hsteady : stream.Steady :=
    steady_create (SourceBehaviour.generous_ofBytes _).portion 2 "x"
  have hawait : (stream.await 8).result = .error (.unexpectedEnd "x" 3) := by
    rw [await_result hsteady, if_neg (by decide)]
    rfl
  have hthere : (stream.fetch 8).stream.available = 5 := by
    rw [(hcompared.fetch _ hawait).2.1, available_of_await_end hsteady hawait]
    rfl
  obtain ⟨hresult, -, hposition⟩ := hcompared.fetch _ hawait
  obtain ⟨hread, hskips⟩ := hcompared.read _ hawait
  have hchunk : stream.chunk = 2 := by decide
  rw [hthere, hchunk] at hread hskips
  refine ⟨rfl, by decide, hcompared, hresult, hposition, hread, ?_⟩
  rw [hskips.position, hposition]
  rfl

end ReadStream

end ByteLayout
