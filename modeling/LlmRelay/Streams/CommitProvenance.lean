import LlmRelay.Streams.CommitProbe

/-!
# Whose fault the commit probe reports

A verdict of the probe is `local` in three cases: an error the relay wrote itself,
an event that is no JSON object, and a read that failed. The last two are as the
caller configures them. The first rests on the relay's refusal signal and not on
the bytes, so an upstream that copies the relay's own refusal is still blamed for
it.

## Main definitions

* `EventVerdict.FromUpstream`, `StreamCommitProbe.FromUpstream`: a dead verdict
  blames the upstream and carries no error type of the relay.

## Main results

* `classifyEvent_fromUpstream`: without the signal every event is the upstream's;
* `upstream_cannot_impersonate`: and so is every verdict of the probe.
-/

namespace LlmRelay

open Ecma

/-! ## One event -/

/-- A dead verdict that blames the upstream and names no error of the relay. -/
def EventVerdict.FromUpstream : EventVerdict → Prop
  | hold => True
  | ready => True
  | dead _ provenance errorType => provenance = .upstream ∧ errorType = none

@[simp]
theorem readyIf_fromUpstream (b : Bool) : (readyIf b).FromUpstream := by
  cases b <;> trivial

@[simp]
theorem emptyCompletion_fromUpstream : emptyCompletion.FromUpstream :=
  ⟨rfl, rfl⟩

variable (value : Json)

@[simp]
theorem errorVerdict_fromUpstream : (errorVerdict value false).FromUpstream :=
  ⟨rfl, rfl⟩

theorem anthropicBlockStartVerdict_fromUpstream (block : Json) :
    (anthropicBlockStartVerdict block).FromUpstream := by
  unfold anthropicBlockStartVerdict
  dsimp only
  split_ifs <;> exact readyIf_fromUpstream _

theorem anthropicBlockDeltaVerdict_fromUpstream (delta : Json) :
    (anthropicBlockDeltaVerdict delta).FromUpstream := by
  unfold anthropicBlockDeltaVerdict
  dsimp only
  split_ifs
  · exact readyIf_fromUpstream _
  · exact readyIf_fromUpstream _
  · trivial
  · exact readyIf_fromUpstream _

theorem getD_hold_fromUpstream {verdict : Json → EventVerdict}
    (h : ∀ value, (verdict value).FromUpstream) (value : Option Json) :
    ((value.map verdict).getD .hold).FromUpstream := by
  cases value with
  | none => trivial
  | some value => exact h value

theorem anthropicVerdict_fromUpstream : (anthropicVerdict value false).FromUpstream := by
  unfold anthropicVerdict
  dsimp only
  split_ifs
  · exact errorVerdict_fromUpstream value
  · exact emptyCompletion_fromUpstream
  · exact getD_hold_fromUpstream anthropicBlockStartVerdict_fromUpstream _
  · exact getD_hold_fromUpstream anthropicBlockDeltaVerdict_fromUpstream _
  · exact readyIf_fromUpstream _
  · trivial

theorem chatChoicesVerdict_fromUpstream (finished : Bool) (choices : List Json) :
    (chatChoicesVerdict finished choices).FromUpstream := by
  induction choices generalizing finished with
  | nil =>
    cases finished with
    | false => trivial
    | true => exact emptyCompletion_fromUpstream
  | cons choice rest ih =>
    rw [chatChoicesVerdict]
    split
    · exact ⟨rfl, rfl⟩
    · dsimp only
      split
      · exact ih _
      · split
        · trivial
        · exact ih _

theorem openAiChatVerdict_fromUpstream : (openAiChatVerdict value false).FromUpstream := by
  unfold openAiChatVerdict
  split
  · exact errorVerdict_fromUpstream value
  · split
    · exact ⟨rfl, rfl⟩
    · exact chatChoicesVerdict_fromUpstream _ _

theorem responseCompletedVerdict_fromUpstream (response : Json) :
    (responseCompletedVerdict response).FromUpstream := by
  unfold responseCompletedVerdict
  dsimp only
  split_ifs
  · exact ⟨rfl, rfl⟩
  · trivial
  · exact emptyCompletion_fromUpstream

theorem openAiResponsesVerdict_fromUpstream :
    (openAiResponsesVerdict value false).FromUpstream := by
  unfold openAiResponsesVerdict
  dsimp only
  split_ifs
  · exact errorVerdict_fromUpstream value
  · exact ⟨rfl, rfl⟩
  · exact readyIf_fromUpstream _
  · exact readyIf_fromUpstream _
  · exact readyIf_fromUpstream _
  · exact readyIf_fromUpstream _
  · exact responseCompletedVerdict_fromUpstream _
  · exact readyIf_fromUpstream _
  · exact readyIf_fromUpstream _
  · trivial

/-- **Without the signal every event is the upstream's.** -/
theorem classifyEvent_fromUpstream (event : Text) (protocol : StreamCommitProtocol)
    (cause : StopReasonAccumulator) :
    (classifyEvent event protocol .upstream false cause).1.FromUpstream := by
  unfold classifyEvent
  dsimp only
  split_ifs
  · exact ⟨rfl, rfl⟩
  · trivial
  · exact emptyCompletion_fromUpstream
  · cases Json.parse (eventNameAndData event).2 with
    | none => exact ⟨rfl, rfl⟩
    | some parsed =>
      dsimp only
      split_ifs
      · exact ⟨rfl, rfl⟩
      · exact errorVerdict_fromUpstream parsed
      · cases protocol with
        | anthropicMessages => exact anthropicVerdict_fromUpstream parsed
        | openaiChat => exact openAiChatVerdict_fromUpstream parsed
        | openaiResponses => exact openAiResponsesVerdict_fromUpstream parsed

/-! ## The probe -/

/-- A dead outcome that blames the upstream and names no error of the relay. -/
def CommitOutcome.FromUpstream : CommitOutcome → Prop
  | ready => True
  | dead provenance errorType => provenance = .upstream ∧ errorType = none

/-- A probe whose caller lets nothing but the refusal signal blame the relay, and
whose signal was never set. -/
structure StreamCommitProbeOptions.Unsignalled (options : StreamCommitProbeOptions) : Prop where
  malformed : options.malformedProvenance = .upstream
  readFailure : options.readFailureProvenance = .upstream
  refused : ∀ n, options.refused n = false

/-- A verdict of the probe that blames nobody but the upstream, and names no error of
the relay. -/
def StreamCommitProbe.FromUpstream : StreamCommitProbe → Prop
  | ready _ => True
  | cancelled => True
  | dead _ provenance errorType _ => provenance = .upstream ∧ errorType = none

theorem fromUpstream_of_outcome {result : StreamCommitProbe} {outcome : CommitOutcome}
    (houtcome : result.outcome = some outcome) (h : outcome.FromUpstream) :
    result.FromUpstream := by
  cases result with
  | ready body => trivial
  | cancelled => trivial
  | dead reason provenance errorType classification =>
    rw [← Option.some.inj houtcome] at h
    exact h

section Probe

variable (protocol : StreamCommitProtocol) {options : StreamCommitProbeOptions}

theorem firstVerdict_fromUpstream (h : options.Unsignalled) (n : Nat) (events : List Text) :
    (firstVerdict protocol options n events).FromUpstream := by
  induction events generalizing n with
  | nil => trivial
  | cons event rest ih =>
    have hevent : (eventVerdict protocol options n event).FromUpstream := by
      unfold eventVerdict
      rw [h.malformed, h.refused n]
      exact classifyEvent_fromUpstream event protocol .new
    simp only [firstVerdict]
    split
    · exact ih (n + 1)
    · exact hevent

theorem settle_fromUpstream {verdict : EventVerdict} (h : verdict.FromUpstream) :
    (verdict.settle .upstream).FromUpstream := by
  cases verdict with
  | hold => exact ⟨rfl, rfl⟩
  | ready => trivial
  | dead reason provenance errorType => exact h

theorem commitOutcome_fromUpstream (h : options.Unsignalled) (bytes : List UInt8)
    (ending : Option StreamEnding) :
    (commitOutcome protocol options bytes ending).FromUpstream := by
  unfold commitOutcome
  rw [h.readFailure, ite_self]
  exact settle_fromUpstream (firstVerdict_fromUpstream protocol h 0 _)

variable (options) in
/-- **Upstream bytes cannot impersonate the relay.** While the refusal signal is
not set, no stream, however it is cut and however it ends, makes the probe blame
the relay or report an error type of the relay. -/
theorem upstream_cannot_impersonate (h : options.Unsignalled) (upstream : ByteStream) :
    (probeStreamForCommit protocol options upstream).FromUpstream := by
  have hsettles := probeLoop_outcome upstream.ending upstream.chunks
    (@ProbeState.probed_new protocol options) (Nat.zero_le _)
  have hbytes := commitOutcome_fromUpstream protocol h
    (([] ++ upstream.chunks.flatten).take STREAM_PREFLIGHT_LIMIT)
    (if ([] ++ upstream.chunks.flatten).length < STREAM_PREFLIGHT_LIMIT
      then some upstream.ending else none)
  have hloop : probeStreamForCommit protocol options upstream
      = probeLoop protocol options upstream.ending .new upstream.chunks := rfl
  rcases hsettles with ⟨hcancelled, -⟩ | houtcome
  · rw [hloop, hcancelled]
    trivial
  · -- the outcome of the verdict is the outcome of the bytes
    rw [hloop]
    exact fromUpstream_of_outcome houtcome hbytes

end Probe

/-- An upstream that sends the relay's own refusal, cut in two. -/
def copiedRefusalStream : ByteStream :=
  ⟨[(text "event: error\ndata: \x7b\"error\":\x7b\"type\":\"tool_dialect_refused_").map (·.toUInt8),
    (text "destructive\",\"message\":\"no\"\x7d\x7d\n\n").map (·.toUInt8)], .done⟩

/-- The probe of the copied refusal is dead, and the upstream is blamed for it. -/
theorem upstream_cannot_impersonate_copied :
    (probeStreamForCommit .anthropicMessages plainOptions copiedRefusalStream).outcome
        = some (.dead .upstream none)
      ∧ (probeStreamForCommit .anthropicMessages plainOptions copiedRefusalStream).FromUpstream :=
  ⟨by decide +kernel,
    upstream_cannot_impersonate .anthropicMessages plainOptions ⟨rfl, rfl, fun _ => rfl⟩
      copiedRefusalStream⟩

end LlmRelay
