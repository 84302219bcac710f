import LlmRelay.Streams.ByteStream
import LlmRelay.Streams.CommitVerdict

/-!
# The commit probe

`probeStreamForCommit` (`stream-commit.ts`) reads a provisional stream until an
event commits it or declares it dead, within a byte budget. On `ready` it hands
out a stream that replays what was read and goes on with the rest.

The client's cancellation and the relay's refusal signal may change while the
probe runs: the first is a function of how often it was asked, the second of how
many events were classified before.

## Main definitions

* `probeStreamForCommit`: the probe;
* `ReplayBody`, `ReplayBody.pull`: the stream handed out on `ready`;
* `commitOutcome`: the verdict as a function of the bytes within the budget.

## Main results

* `ReplayBody.pull_simulates`: one pull of the replay is one read of the upstream;
* `probeLoop_outcome`: the loop reaches the outcome of the bytes;
* `commit_probe_fidelity`: both, for every stream and every way it is cut.
-/

namespace LlmRelay

open Ecma

/-- The byte budget of the probe. -/
def STREAM_PREFLIGHT_LIMIT : Nat := 64 * 1024

/-- The stream handed out on `ready`: the chunks read so far, how many of them
were replayed, and the reader. -/
structure ReplayBody where
  chunks : List Chunk
  prefixIndex : Nat
  reader : ByteStream
  deriving DecidableEq, Repr

/-- One pull of the replayed stream. -/
def ReplayBody.pull (b : ReplayBody) : ReadResult × ReplayBody :=
  match b.chunks[b.prefixIndex]? with
  | some chunk => (.value chunk, { b with prefixIndex := b.prefixIndex + 1 })
  | none => (b.reader.read.1, { b with reader := b.reader.read.2 })

/-- The verdict of the probe. -/
inductive StreamCommitProbe where
  | ready (body : ReplayBody)
  | dead (reason : Text) (provenance : Provenance) (errorType : Option Text)
      (classification : Option StreamDeadClassification)
  | cancelled
  deriving DecidableEq

/-- The options of the probe. -/
structure StreamCommitProbeOptions where
  /-- The answer to the `n`-th question whether the client is gone. -/
  isCancelled : Nat → Bool
  malformedProvenance : Provenance
  readFailureProvenance : Provenance
  /-- The refusal signal when `n` events were classified before. -/
  refused : Nat → Bool

/-- The probe between two steps. -/
structure ProbeState where
  chunks : List Chunk
  decoder : Utf8Decoder
  frames : BufferedSseFrames
  cause : StopReasonAccumulator
  classified : Nat
  inspectedBytes : Nat
  consults : Nat

/-- The probe before its first read. -/
def ProbeState.new : ProbeState :=
  ⟨[], .new, .new, .new, 0, 0, 0⟩

section Probe

variable (protocol : StreamCommitProtocol) (options : StreamCommitProbeOptions)

/-- Asks whether the client is gone. -/
def ProbeState.consult (s : ProbeState) : Bool × ProbeState :=
  (options.isCancelled s.consults, { s with consults := s.consults + 1 })

/-- Classifies one frame. -/
def ProbeState.classify (s : ProbeState) (event : Text) : EventVerdict × ProbeState :=
  let r := classifyEvent event protocol options.malformedProvenance (options.refused s.classified)
    s.cause
  (r.1, { s with cause := r.2, classified := s.classified + 1 })

/-- Classifies frames in order. The first verdict that does not hold wins, and
the frames after it are read for the cause only. -/
def ProbeState.classifyAll (s : ProbeState) : List Text → EventVerdict × ProbeState
  | [] => (.hold, s)
  | event :: rest =>
    let next := s.classify protocol options event
    let later := next.2.classifyAll rest
    (if next.1.isHold then later.1 else next.1, later.2)

/-- Walks the buffered frames. -/
def drainFrames (s : ProbeState) : EventVerdict × ProbeState :=
  let drained := s.frames.drain
  ({ s with frames := drained.2 } : ProbeState).classifyAll protocol options
    (drained.1.map SseFrame.frame)

/-- Walks the buffered frames and, at the end of the stream, the frame that was
never terminated. -/
def inspectCompleteEvents (s : ProbeState) (final : Bool) : EventVerdict × ProbeState :=
  let drained := drainFrames protocol options s
  if final then
    let event := (drained.2.frames.takeRemainder []).1
    let s := { drained.2 with frames := (drained.2.frames.takeRemainder []).2 }
    if event.trim = [] then (drained.1, s)
    else
      let last := s.classify protocol options event
      -- after a verdict the remainder is read for the cause only
      (if drained.1.isHold then last.1 else drained.1, last.2)
  else drained

/-- Everything a dead verdict says; a client that is gone wins. -/
def probeDead (s : ProbeState) (reason : Text) (provenance : Provenance)
    (errorType : Option Text) : StreamCommitProbe :=
  if (s.consult options).1 then .cancelled
  else
    let classification := s.cause.snapshot
    let detailed :=
      match classification with
      | some c => reason ++ text ": " ++ describeStreamStopCause c
      | none => reason
    .dead detailed provenance errorType classification

/-- The probe gives up within the budget. -/
def probeLimit (s : ProbeState) : StreamCommitProbe :=
  probeDead options s (text "no meaningful content within commit probe limit") .upstream none

/-- The replay of what was read, and then the rest of the reader. -/
def probeReady (s : ProbeState) (reader : ByteStream) : StreamCommitProbe :=
  .ready ⟨s.chunks, 0, reader⟩

/-- A read failed. -/
def probeReadFailure (s : ProbeState) : StreamCommitProbe :=
  let asked := s.consult options
  if asked.1 then .cancelled
  else
    probeDead options asked.2 (text "stream failed before meaningful content")
      options.readFailureProvenance none

/-- The decoder's last call, appended to the frames. -/
def ProbeState.flushDecoder (s : ProbeState) : ProbeState :=
  { s with frames := s.frames.append s.decoder.flush }

/-- The stream closed. -/
def probeDone (s : ProbeState) (reader : ByteStream) : StreamCommitProbe :=
  let asked := s.consult options
  if asked.1 then .cancelled
  else
    let inspected := inspectCompleteEvents protocol options asked.2.flushDecoder true
    match inspected.1 with
    | .ready => probeReady inspected.2 reader
    | .dead reason provenance errorType =>
      probeDead options inspected.2 reason provenance errorType
    | .hold =>
      probeDead options inspected.2 (text "stream ended before meaningful content") .upstream none

/-- A chunk is buffered, decoded within the budget and appended to the frames. -/
def ProbeState.receive (s : ProbeState) (chunk : Chunk) : ProbeState :=
  let inspectBytes := chunk.take (STREAM_PREFLIGHT_LIMIT - s.inspectedBytes)
  let decoded := s.decoder.decode inspectBytes
  { s with
    chunks := s.chunks ++ [chunk]
    inspectedBytes := s.inspectedBytes + inspectBytes.length
    decoder := decoded.1
    frames := s.frames.append decoded.2 }

/-- The read loop; `chunks` are the chunks still to be read. -/
def probeLoop (ending : StreamEnding) (s : ProbeState) (chunks : List Chunk) : StreamCommitProbe :=
  if STREAM_PREFLIGHT_LIMIT ≤ s.inspectedBytes then probeLimit options s
  else
    match chunks with
    | [] =>
      match ending with
      | .done => probeDone protocol options s ⟨[], .done⟩
      | .failed => probeReadFailure options s
    | chunk :: rest =>
      let asked := s.consult options
      if asked.1 then .cancelled
      else
        let received := asked.2.receive chunk
        let inspected := inspectCompleteEvents protocol options received false
        match inspected.1 with
        | .ready =>
          if (inspected.2.consult options).1 then .cancelled
          else probeReady inspected.2 ⟨rest, ending⟩
        | .dead reason provenance errorType =>
          probeDead options inspected.2 reason provenance errorType
        | .hold =>
          -- the part of the chunk beyond the budget was not inspected
          if STREAM_PREFLIGHT_LIMIT - s.inspectedBytes < chunk.length then
            probeLimit options inspected.2
          else probeLoop ending inspected.2 rest

/-- Reads through events that say nothing until the stream commits or is dead. -/
def probeStreamForCommit (body : ByteStream) : StreamCommitProbe :=
  probeLoop protocol options body.ending .new body.chunks

end Probe

/-! ## Replay -/

/-- What a sequence of reads answers. -/
def nthRead {σ : Type} (step : σ → ReadResult × σ) (s : σ) : Nat → ReadResult
  | 0 => (step s).1
  | n + 1 => nthRead step (step s).2 n

/-- A replay stands where the stream does: the chunks not yet replayed, and then
those of the reader, are the chunks of the stream. -/
def ReplayBody.Follows (b : ReplayBody) (s : ByteStream) : Prop :=
  b.chunks.drop b.prefixIndex ++ b.reader.chunks = s.chunks ∧ b.reader.ending = s.ending

/-- **One pull of the replay is one read of the upstream.** -/
theorem ReplayBody.pull_simulates {b : ReplayBody} {s : ByteStream} (h : b.Follows s) :
    b.pull.1 = s.read.1 ∧ b.pull.2.Follows s.read.2 := by
  obtain ⟨hchunks, hending⟩ := h
  unfold ReplayBody.pull
  cases hget : b.chunks[b.prefixIndex]? with
  | some chunk =>
    obtain ⟨hlt, hchunk⟩ := List.getElem?_eq_some_iff.mp hget
    have hdrop : b.chunks.drop b.prefixIndex = chunk :: b.chunks.drop (b.prefixIndex + 1) := by
      rw [List.drop_eq_getElem_cons hlt, hchunk]
    rw [hdrop] at hchunks
    simp [ByteStream.read, ← hchunks, ReplayBody.Follows, hending]
  | none =>
    have hdrop : b.chunks.drop b.prefixIndex = [] :=
      List.drop_eq_nil_of_le (List.getElem?_eq_none_iff.mp hget)
    rw [hdrop, List.nil_append] at hchunks
    unfold ByteStream.read
    cases hs : s.chunks with
    | nil => simp [hchunks, hs, hending, ReplayBody.Follows, hdrop]
    | cons c rest => simp [hchunks, hs, hending, ReplayBody.Follows, hdrop]

theorem ReplayBody.nthRead_eq {b : ReplayBody} {s : ByteStream} (h : b.Follows s) (n : Nat) :
    nthRead ReplayBody.pull b n = nthRead ByteStream.read s n := by
  induction n generalizing b s with
  | zero => exact (pull_simulates h).1
  | succ n ih => exact ih (pull_simulates h).2

/-! ## The outcome of the bytes -/

/-- The verdict without its message. -/
inductive CommitOutcome where
  | ready
  | dead (provenance : Provenance) (errorType : Option Text)
  deriving DecidableEq, Repr

/-- The kind, provenance and error type of a verdict; none when it was cancelled. -/
def StreamCommitProbe.outcome : StreamCommitProbe → Option CommitOutcome
  | ready _ => some .ready
  | dead _ provenance errorType _ => some (.dead provenance errorType)
  | cancelled => none

/-- The outcome of a verdict; a stream that only held is dead. -/
def EventVerdict.settle (fallback : Provenance) : EventVerdict → CommitOutcome
  | ready => .ready
  | dead _ provenance errorType => .dead provenance errorType
  | hold => .dead fallback none

section Outcome

variable (protocol : StreamCommitProtocol) (options : StreamCommitProbeOptions)

/-- The verdict of one event; `n` events came before. -/
def eventVerdict (n : Nat) (event : Text) : EventVerdict :=
  (classifyEvent event protocol options.malformedProvenance (options.refused n) .new).1

/-- The first verdict that does not hold; `n` events came before. -/
def firstVerdict (n : Nat) : List Text → EventVerdict
  | [] => .hold
  | event :: rest =>
    let verdict := eventVerdict protocol options n event
    if verdict.isHold then firstVerdict (n + 1) rest else verdict

/-- The complete events of a byte sequence. -/
def completeEvents (bytes : List UInt8) : List Text :=
  (decodedFrames bytes).drain.1.map SseFrame.frame

/-- The events of the bytes within the budget; a stream that closed there also
has its unterminated remainder, unless that is blank. -/
def commitEvents (bytes : List UInt8) (ending : Option StreamEnding) : List Text :=
  if ending = some .done then
    let drained := ((decodedFrames bytes).append (Utf8Decoder.new.decode bytes).1.flush).drain
    drained.1.map SseFrame.frame
      ++ if drained.2.buffered.trim = [] then [] else [drained.2.buffered]
  else
    completeEvents bytes

/-- The verdict as a function of the bytes within the budget and of how the
stream ended there. -/
def commitOutcome (bytes : List UInt8) (ending : Option StreamEnding) : CommitOutcome :=
  (firstVerdict protocol options 0 (commitEvents bytes ending)).settle
    (if ending = some .failed then options.readFailureProvenance else .upstream)

/-- A verdict that is the given outcome, or a cancellation the client asked for. -/
def SettlesAs (result : StreamCommitProbe) (outcome : CommitOutcome) : Prop :=
  (result = .cancelled ∧ ∃ n, options.isCancelled n = true) ∨ result.outcome = some outcome

theorem firstVerdict_append (n : Nat) (as bs : List Text) :
    firstVerdict protocol options n (as ++ bs)
      = if (firstVerdict protocol options n as).isHold then
          firstVerdict protocol options (n + as.length) bs
        else firstVerdict protocol options n as := by
  induction as generalizing n with
  | nil => simp [firstVerdict, EventVerdict.isHold]
  | cons a as ih =>
    simp only [List.cons_append, firstVerdict, ih]
    by_cases hv : (eventVerdict protocol options n a).isHold = true
    · simp only [hv, if_true, List.length_cons, Nat.add_assoc, Nat.add_comm 1]
    · simp only [hv, Bool.false_eq_true, if_false]

theorem eq_hold_of_isHold {v : EventVerdict} (h : v.isHold = true) : v = .hold := by
  cases v with
  | hold => rfl
  | ready => cases h
  | dead => cases h

theorem completeEvents_append (as bs : List UInt8) :
    completeEvents (as ++ bs)
      = completeEvents as
        ++ ((decodedFrames as).drain.2.append ((Utf8Decoder.new.decode as).1.decode bs).2).drain.1.map
            SseFrame.frame := by
  have h : decodedFrames (as ++ bs)
      = (decodedFrames as).append ((Utf8Decoder.new.decode as).1.decode bs).2 := by
    simp [decodedFrames, BufferedSseFrames.append, Utf8Decoder.decode_append]
  rw [completeEvents, h, BufferedSseFrames.drain_append, List.map_append, completeEvents]

theorem completeEvents_prefix (as bs : List UInt8) (ending : Option StreamEnding) :
    completeEvents as <+: commitEvents (as ++ bs) ending := by
  have h : completeEvents as <+: completeEvents (as ++ bs) := by
    rw [completeEvents_append]
    exact List.prefix_append _ _
  refine h.trans ?_
  unfold commitEvents
  split
  · dsimp only
    rw [BufferedSseFrames.drain_append, List.map_append, List.append_assoc]
    exact List.prefix_append _ _
  · exact List.prefix_refl _

theorem commitOutcome_of_verdict {as bs : List UInt8} {ending : Option StreamEnding}
    (h : (firstVerdict protocol options 0 (completeEvents as)).isHold = false)
    (fallback : Provenance) :
    commitOutcome protocol options (as ++ bs) ending
      = (firstVerdict protocol options 0 (completeEvents as)).settle fallback := by
  obtain ⟨rest, hrest⟩ := completeEvents_prefix as bs ending
  rw [commitOutcome, ← hrest, firstVerdict_append]
  cases hv : firstVerdict protocol options 0 (completeEvents as) with
  | hold => simp [hv, EventVerdict.isHold] at h
  | ready => rfl
  | dead => rfl

end Outcome

/-! ## The loop -/

section Loop

variable {protocol : StreamCommitProtocol} {options : StreamCommitProbeOptions}

variable (s : ProbeState)

include s

theorem classify_spec (event : Text) :
    (s.classify protocol options event).1 = eventVerdict protocol options s.classified event
      ∧ ∃ cause, (s.classify protocol options event).2
          = { s with cause := cause, classified := s.classified + 1 } :=
  ⟨classifyEvent_verdict _ _ _ _ _ _, _, rfl⟩

theorem classifyAll_spec (events : List Text) :
    (s.classifyAll protocol options events).1
        = firstVerdict protocol options s.classified events
      ∧ ∃ cause, (s.classifyAll protocol options events).2
          = { s with cause := cause, classified := s.classified + events.length } := by
  induction events generalizing s with
  | nil => exact ⟨rfl, s.cause, rfl⟩
  | cons event rest ih =>
    obtain ⟨hverdict, cause, hstate⟩ := classify_spec  s event
    obtain ⟨hlater, cause', hlast⟩ := ih (s.classify protocol options event).2
    simp only [ProbeState.classifyAll, firstVerdict]
    refine ⟨?_, cause', ?_⟩
    · rw [hlater, hverdict, hstate]
    · rw [hlast, hstate]
      simp [Nat.add_assoc, Nat.add_comm 1]

theorem drainFrames_spec :
    (drainFrames protocol options s).1
        = firstVerdict protocol options s.classified (s.frames.drain.1.map SseFrame.frame)
      ∧ ∃ cause, (drainFrames protocol options s).2
          = { s with
                frames := s.frames.drain.2, cause := cause,
                classified := s.classified + s.frames.drain.1.length } := by
  obtain ⟨hverdict, cause, hstate⟩ := classifyAll_spec 
    { s with frames := s.frames.drain.2 } (s.frames.drain.1.map SseFrame.frame)
  refine ⟨hverdict, cause, ?_⟩
  rw [List.length_map] at hstate
  exact hstate

/-- The verdict at the end of a stream takes the remainder as one more event,
unless it is blank. -/
theorem inspectCompleteEvents_final :
    (inspectCompleteEvents protocol options s true).1
        = firstVerdict protocol options s.classified
            (s.frames.drain.1.map SseFrame.frame
              ++ if s.frames.drain.2.buffered.trim = [] then []
                else [s.frames.drain.2.buffered])
      ∧ (inspectCompleteEvents protocol options s true).2.chunks = s.chunks := by
  obtain ⟨hverdict, cause, hstate⟩ := drainFrames_spec  s
  have hremainder : ((drainFrames protocol options s).2.frames.takeRemainder []).1
      = s.frames.drain.2.buffered := by
    rw [hstate]
    exact List.append_nil _
  simp only [inspectCompleteEvents, if_true, hremainder]
  by_cases hblank : s.frames.drain.2.buffered.trim = []
  · simp only [hblank, if_true, List.append_nil, hverdict, hstate, and_self]
  · simp only [hblank, if_false]
    refine ⟨?_, by rw [(classify_spec _ _).2.choose_spec, hstate]⟩
    rw [firstVerdict_append, hverdict, (classify_spec _ _).1, hstate]
    simp only [firstVerdict, List.length_map]
    by_cases hlast : (eventVerdict protocol options (s.classified + s.frames.drain.1.length)
        s.frames.drain.2.buffered).isHold = true
    · simp only [eq_hold_of_isHold hlast, ite_self]
    · simp only [hlast, Bool.false_eq_true, if_false]

omit s

variable (protocol options) in
/-- The probe has read `bytes`, and every event in them held. -/
structure ProbeState.Probed (s : ProbeState) (bytes : List UInt8) : Prop where
  decoder : s.decoder = (Utf8Decoder.new.decode bytes).1
  frames : s.frames = (decodedFrames bytes).drain.2
  classified : s.classified = (completeEvents bytes).length
  inspected : s.inspectedBytes = bytes.length
  held : (firstVerdict protocol options 0 (completeEvents bytes)).isHold = true

theorem ProbeState.probed_new : ProbeState.new.Probed protocol options [] where
  decoder := rfl
  frames := by
    rw [BufferedSseFrames.drain_of_none rfl]
    rfl
  classified := by
    rw [completeEvents, BufferedSseFrames.drain_of_none rfl]
    rfl
  inspected := rfl
  held := by
    rw [completeEvents, BufferedSseFrames.drain_of_none rfl]
    rfl

variable {s : ProbeState} {bytes : List UInt8}

theorem ProbeState.Probed.consult (h : s.Probed protocol options bytes) :
    (s.consult options).2.Probed protocol options bytes :=
  ⟨h.decoder, h.frames, h.classified, h.inspected, h.held⟩

/-- **The verdict after a chunk is the verdict of the bytes read so far.** -/
theorem inspect_receive (h : s.Probed protocol options bytes) (chunk : Chunk) :
    let read := bytes ++ chunk.take (STREAM_PREFLIGHT_LIMIT - bytes.length)
    let inspected := inspectCompleteEvents protocol options (s.receive chunk) false
    inspected.1 = firstVerdict protocol options 0 (completeEvents read)
      ∧ (inspected.1.isHold = true → inspected.2.Probed protocol options read) := by
  intro read inspected
  obtain ⟨hverdict, cause, hstate⟩ :=
    drainFrames_spec  (s.receive chunk)
  have hframes : (s.receive chunk).frames = (decodedFrames bytes).drain.2.append
      ((Utf8Decoder.new.decode bytes).1.decode
        (chunk.take (STREAM_PREFLIGHT_LIMIT - bytes.length))).2 := by
    simp [ProbeState.receive, h.frames, h.decoder, h.inspected]
  have hevents : completeEvents read
      = completeEvents bytes ++ (s.receive chunk).frames.drain.1.map SseFrame.frame := by
    rw [hframes]
    exact completeEvents_append _ _
  have hwhole : inspected.1 = firstVerdict protocol options 0 (completeEvents read) := by
    rw [hevents, firstVerdict_append, h.held, Nat.zero_add, ← h.classified]
    exact hverdict
  refine ⟨hwhole, fun hhold => ?_⟩
  have hstate' : inspected.2 = _ := hstate
  rw [hstate']
  constructor
  · simp [ProbeState.receive, h.decoder, h.inspected, read, Utf8Decoder.decode_append]
  · have hdecoded : decodedFrames read = (decodedFrames bytes).append
        ((Utf8Decoder.new.decode bytes).1.decode
          (chunk.take (STREAM_PREFLIGHT_LIMIT - bytes.length))).2 := by
      simp [read, decodedFrames, BufferedSseFrames.append, Utf8Decoder.decode_append]
    rw [hdecoded, BufferedSseFrames.drain_append, ← hframes]
  · rw [hevents, List.length_append, List.length_map, ← h.classified]
    rfl
  · simp [ProbeState.receive, read, h.inspected]
  · rw [← hwhole]
    exact hhold

theorem probeDead_settles (s : ProbeState) (reason : Text) (provenance : Provenance)
    (errorType : Option Text) :
    SettlesAs options (probeDead options s reason provenance errorType)
      (.dead provenance errorType) := by
  unfold probeDead
  by_cases hc : (s.consult options).1 = true
  · exact .inl ⟨if_pos hc, _, hc⟩
  · rw [if_neg hc]
    exact .inr rfl

theorem take_budget {bytes chunk : List UInt8} (rest : List UInt8)
    (hlen : bytes.length ≤ STREAM_PREFLIGHT_LIMIT) :
    ∃ more, (bytes ++ (chunk ++ rest)).take STREAM_PREFLIGHT_LIMIT
      = bytes ++ chunk.take (STREAM_PREFLIGHT_LIMIT - bytes.length) ++ more := by
  rw [List.take_append, List.take_of_length_le hlen, List.take_append, ← List.append_assoc]
  exact ⟨_, rfl⟩

theorem probeDone_settles (h : s.Probed protocol options bytes) (reader : ByteStream) :
    SettlesAs options (probeDone protocol options s reader)
      (commitOutcome protocol options bytes (some .done)) := by
  unfold probeDone
  dsimp only
  by_cases hc : (s.consult options).1 = true
  · exact .inl ⟨if_pos hc, _, hc⟩
  rw [if_neg hc]
  obtain ⟨hverdict, -⟩ :=
    @inspectCompleteEvents_final protocol options (s.consult options).2.flushDecoder
  have hevents : commitEvents bytes (some .done)
      = completeEvents bytes
        ++ ((s.frames.append s.decoder.flush).drain.1.map SseFrame.frame
          ++ if (s.frames.append s.decoder.flush).drain.2.buffered.trim = [] then []
            else [(s.frames.append s.decoder.flush).drain.2.buffered]) := by
    rw [commitEvents, if_pos rfl, h.frames, h.decoder]
    dsimp only
    rw [BufferedSseFrames.drain_append, List.map_append, List.append_assoc, completeEvents]
  have hwhole : firstVerdict protocol options 0 (commitEvents bytes (some .done))
      = (inspectCompleteEvents protocol options (s.consult options).2.flushDecoder true).1 := by
    rw [hevents, firstVerdict_append, h.held, Nat.zero_add, ← h.classified]
    exact hverdict.symm
  rw [commitOutcome, hwhole]
  split
  · rename_i hv
    rw [hv]
    exact .inr rfl
  · rename_i hv
    rw [hv]
    exact probeDead_settles _ _ _ _
  · rename_i hv
    rw [hv]
    exact probeDead_settles _ _ _ _

theorem probeReadFailure_settles (h : s.Probed protocol options bytes) :
    SettlesAs options (probeReadFailure options s)
      (commitOutcome protocol options bytes (some .failed)) := by
  have hwhole : firstVerdict protocol options 0 (commitEvents bytes (some .failed)) = .hold :=
    eq_hold_of_isHold h.held
  rw [commitOutcome, hwhole]
  unfold probeReadFailure
  by_cases hc : (s.consult options).1 = true
  · exact .inl ⟨if_pos hc, _, hc⟩
  · rw [if_neg hc]
    exact probeDead_settles _ _ _ _

theorem probeLimit_settles
    (h : (firstVerdict protocol options 0 (completeEvents bytes)).isHold = true) :
    SettlesAs options (probeLimit options s) (commitOutcome protocol options bytes none) := by
  have hwhole : firstVerdict protocol options 0 (commitEvents bytes none) = .hold :=
    eq_hold_of_isHold h
  rw [commitOutcome, hwhole]
  exact probeDead_settles _ _ _ _

/-- **The loop reaches the outcome of the bytes.** The induction is on the chunks
still to be read; `Probed` carries what was read before. -/
theorem probeLoop_outcome (ending : StreamEnding) (chunks : List Chunk)
    (h : s.Probed protocol options bytes) (hlen : bytes.length ≤ STREAM_PREFLIGHT_LIMIT) :
    SettlesAs options (probeLoop protocol options ending s chunks)
      (commitOutcome protocol options ((bytes ++ chunks.flatten).take STREAM_PREFLIGHT_LIMIT)
        (if (bytes ++ chunks.flatten).length < STREAM_PREFLIGHT_LIMIT then some ending
          else none)) := by
  induction chunks generalizing s bytes with
  | nil =>
    unfold probeLoop
    rw [List.flatten_nil, List.append_nil, List.take_of_length_le hlen, h.inspected]
    by_cases hlimit : STREAM_PREFLIGHT_LIMIT ≤ bytes.length
    · rw [if_pos hlimit, if_neg (Nat.not_lt.mpr hlimit)]
      exact probeLimit_settles h.held
    · rw [if_neg hlimit, if_pos (Nat.not_le.mp hlimit)]
      cases ending with
      | done => exact probeDone_settles h _
      | failed => exact probeReadFailure_settles h
  | cons chunk rest ih =>
    unfold probeLoop
    rw [List.flatten_cons, h.inspected]
    by_cases hlimit : STREAM_PREFLIGHT_LIMIT ≤ bytes.length
    · have hfull : bytes.length = STREAM_PREFLIGHT_LIMIT := Nat.le_antisymm hlen hlimit
      rw [if_pos hlimit, if_neg (by rw [List.length_append]; omega), ← hfull, List.take_left]
      exact probeLimit_settles h.held
    rw [if_neg hlimit]
    dsimp only
    by_cases hc : (s.consult options).1 = true
    · exact .inl ⟨if_pos hc, _, hc⟩
    rw [if_neg hc]
    obtain ⟨hverdict, hprobed⟩ := inspect_receive h.consult chunk
    obtain ⟨more, hmore⟩ := @take_budget bytes chunk rest.flatten hlen
    split
    · -- an event committed the stream
      rename_i hv
      rw [hv] at hverdict
      rw [hmore, commitOutcome_of_verdict protocol options (by rw [← hverdict]; rfl) .upstream,
        ← hverdict]
      split
      · rename_i hc'
        exact .inl ⟨rfl, _, hc'⟩
      · exact .inr rfl
    · -- an event ended it
      rename_i hv
      rw [hv] at hverdict
      rw [hmore, commitOutcome_of_verdict protocol options (by rw [← hverdict]; rfl) .upstream,
        ← hverdict]
      exact probeDead_settles _ _ _ _
    · rename_i hv
      rw [hv] at hprobed
      have hread := hprobed rfl
      split
      · -- the chunk went beyond the budget
        rename_i hover
        have hspent : (bytes ++ (chunk ++ rest.flatten)).take STREAM_PREFLIGHT_LIMIT
            = bytes ++ chunk.take (STREAM_PREFLIGHT_LIMIT - bytes.length) := by
          rw [List.take_append, List.take_of_length_le hlen,
            List.take_append_of_le_length (by omega)]
        rw [hspent, if_neg (by simp only [List.length_append]; omega)]
        exact probeLimit_settles hread.held
      · rename_i hover
        have hwhole : chunk.take (STREAM_PREFLIGHT_LIMIT - bytes.length) = chunk :=
          List.take_of_length_le (by omega)
        rw [hwhole] at hread
        rw [← List.append_assoc]
        exact ih hread (by rw [List.length_append]; omega)

theorem probeDead_ne_ready (s : ProbeState) (reason : Text) (provenance : Provenance)
    (errorType : Option Text) (body : ReplayBody) :
    probeDead options s reason provenance errorType ≠ .ready body := by
  unfold probeDead
  split <;> exact nofun

theorem probeDone_ready {reader : ByteStream} {body : ReplayBody}
    (h : probeDone protocol options s reader = .ready body) : body = ⟨s.chunks, 0, reader⟩ := by
  unfold probeDone at h
  dsimp only at h
  split at h
  · cases h
  · split at h
    · injection h with h
      obtain ⟨-, hchunks⟩ :=
        @inspectCompleteEvents_final protocol options (s.consult options).2.flushDecoder
      rw [← h, hchunks]
      rfl
    · exact absurd h (probeDead_ne_ready _ _ _ _ _)
    · exact absurd h (probeDead_ne_ready _ _ _ _ _)

theorem inspect_receive_chunks (s : ProbeState) (chunk : Chunk) :
    (inspectCompleteEvents protocol options (s.receive chunk) false).2.chunks
      = s.chunks ++ [chunk] := by
  obtain ⟨-, cause, hstate⟩ := @drainFrames_spec protocol options (s.receive chunk)
  have hstate' : (inspectCompleteEvents protocol options (s.receive chunk) false).2 = _ := hstate
  rw [hstate']
  rfl

/-- **A stream that is handed out stands at the start of the upstream.** -/
theorem probeLoop_ready (ending : StreamEnding) (chunks : List Chunk) {body : ReplayBody}
    (h : probeLoop protocol options ending s chunks = .ready body) :
    body.Follows ⟨s.chunks ++ chunks, ending⟩ := by
  induction chunks generalizing s with
  | nil =>
    unfold probeLoop at h
    split at h
    · exact absurd h (probeDead_ne_ready _ _ _ _ _)
    · cases ending with
      | done =>
        rw [probeDone_ready h]
        exact ⟨rfl, rfl⟩
      | failed =>
        unfold probeReadFailure at h
        dsimp only at h
        split at h
        · cases h
        · exact absurd h (probeDead_ne_ready _ _ _ _ _)
  | cons chunk rest ih =>
    unfold probeLoop at h
    split at h
    · exact absurd h (probeDead_ne_ready _ _ _ _ _)
    dsimp only at h
    split at h
    · cases h
    have hchunks := @inspect_receive_chunks protocol options (s.consult options).2 chunk
    split at h
    · split at h
      · cases h
      · injection h with h
        rw [← h]
        refine ⟨?_, rfl⟩
        rw [hchunks]
        exact List.append_assoc _ _ _
    · exact absurd h (probeDead_ne_ready _ _ _ _ _)
    · split at h
      · exact absurd h (probeDead_ne_ready _ _ _ _ _)
      · have hrest := ih h
        rw [hchunks, List.append_assoc] at hrest
        exact hrest

/-- What a stream shows the probe: the bytes within the budget, and its end when
it comes before the budget is spent. -/
def ByteStream.withinBudget (s : ByteStream) : List UInt8 × Option StreamEnding :=
  (s.bytes.take STREAM_PREFLIGHT_LIMIT,
    if s.bytes.length < STREAM_PREFLIGHT_LIMIT then some s.ending else none)

variable (protocol options) in
/-- **Fidelity of the commit probe**: whatever the chunks, a stream handed out on
`ready` answers every read as the upstream does, and the verdict is a
cancellation the client asked for or has the kind, provenance and error type of
the bytes within the budget. -/
theorem commit_probe_fidelity (upstream : ByteStream) :
    (∀ body, probeStreamForCommit protocol options upstream = .ready body →
      ∀ n, nthRead ReplayBody.pull body n = nthRead ByteStream.read upstream n)
    ∧ SettlesAs options (probeStreamForCommit protocol options upstream)
        (commitOutcome protocol options upstream.withinBudget.1 upstream.withinBudget.2) := by
  constructor
  · intro body hbody n
    exact ReplayBody.nthRead_eq (probeLoop_ready _ _ hbody) n
  · have h := probeLoop_outcome upstream.ending upstream.chunks
      (@ProbeState.probed_new protocol options) (Nat.zero_le _)
    rw [List.nil_append] at h
    exact h

/-- Options of a connected client and a relay that refused nothing. -/
def plainOptions : StreamCommitProbeOptions :=
  ⟨fun _ => false, .upstream, .upstream, fun _ => false⟩

/-- A chat chunk whose content is `é`, cut inside the character and inside the
separator, and followed by more bytes. -/
def cutChatStream : ByteStream :=
  let event := text "data: \x7b\"choices\":[\x7b\"delta\":\x7b\"content\":\""
  ⟨[event.map (·.toUInt8) ++ [0xC3], [0xA9] ++ (text "\"\x7d\x7d]\x7d\n").map (·.toUInt8), [0x0A, 0x64],
    [0x61]], .done⟩

/-- The cut stream commits on its first event, and its replay is the stream. -/
theorem commit_probe_fidelity_cut :
    (probeStreamForCommit .openaiChat plainOptions cutChatStream).outcome = some .ready
    ∧ (∀ body, probeStreamForCommit .openaiChat plainOptions cutChatStream = .ready body →
      ∀ n, nthRead ReplayBody.pull body n = nthRead ByteStream.read cutChatStream n)
    ∧ SettlesAs plainOptions (probeStreamForCommit .openaiChat plainOptions cutChatStream)
        (commitOutcome .openaiChat plainOptions cutChatStream.withinBudget.1
          cutChatStream.withinBudget.2) :=
  ⟨by decide +kernel, commit_probe_fidelity .openaiChat plainOptions cutChatStream⟩

end Loop

end LlmRelay
