import LlmRelay.Breaker.QuotaLatest
import LlmRelay.Pacing.Resolve
import Mathlib.Algebra.Order.Floor.Semiring
import Mathlib.Data.Rat.Floor

/-!
# The pacing guarantee

A relay that starts an attempt on a cell only while it counts fewer than a limit in the
trailing window keeps the limit in every window of that width. The log of the starts does
not survive a reset of the breaker, so the guarantee is about the starts since the last one.

## Main definitions

* `CountedFewer`: asked at a start, the pacing counted fewer requests than a limit;
* `PacedRun`: a run where that held at every start;
* `startsWithin`: the starts in a window that begins anywhere.

## Main results

* `admitted_of_pacedRun`: each start found fewer than the limit among all the starts before;
* `pacing_bounds_every_window`: no window holds more than the limit.
-/

namespace LlmRelay

open Ecma Transition

/-- Asked at `now`, the pacing counted fewer than `limit` requests of the period against
the cell `key` of the breaker `b`. -/
def CountedFewer (w : World) (b : Ref) (key : String) (period : PacingPeriod) (limit : ℚ)
    (now : Number) : Prop :=
  ∃ (deps : PacingDeps) (attempt : ResolvedAttempt) (verdict : PacingVerdict),
    deps.ReadsBreaker w b ∧ cellKey attempt.credentialId attempt.target.model = key ∧
      verdict ∈ deps.pacingCounts attempt now ∧ verdict.axis = .requests ∧
      verdict.period = period ∧ verdict.counted.lt (.fin limit) = true

/-- Every start on the cell in the run was made at a count below `limit`. -/
def PacedRun [Url] (ops : List Operation) (b : Ref) (key : String) (period : PacingPeriod)
    (limit : ℚ) : Prop :=
  ∀ earlier op later at_ estimatedInputTokens, ops = earlier ++ op :: later →
    logEvent b key (op, (World.operate (finalState World.operate World.initial earlier) op).2)
        = .started at_ estimatedInputTokens →
      CountedFewer (finalState World.operate World.initial earlier) b key period limit at_

/-- All starts of attempts on a cell, whatever was reset in between. -/
def startsEver (b : Ref) (key : String) (events : List (Operation × Answer)) : List Number :=
  events.filterMap fun event =>
    match logEvent b key event with
    | .started at_ _ => some at_
    | _ => none

/-- The starts among `starts` in the half-open window of the period that begins at `s`. -/
def startsWithin (period : PacingPeriod) (starts : List Number) (s : ℚ) : Nat :=
  starts.countP fun t =>
    (Number.fin s).le t && t.lt (.fin (s + PACING_WINDOW_MS period))

section Guarantee

variable {period : PacingPeriod} {limit : ℚ} {b : Ref} {key : String}

theorem PacedRun.nil [Url] : PacedRun [] b key period limit := by
  intro earlier op later at_ estimate hsplit
  cases earlier <;> cases hsplit

theorem pacedRun_snoc [Url] {ops : List Operation} {op : Operation} :
    PacedRun (ops ++ [op]) b key period limit ↔
      PacedRun ops b key period limit ∧
        ∀ at_ estimatedInputTokens,
          logEvent b key (op, (World.operate (finalState World.operate World.initial ops) op).2)
              = .started at_ estimatedInputTokens →
            CountedFewer (finalState World.operate World.initial ops) b key period limit at_ := by
  constructor
  · intro h
    refine ⟨?_, fun at_ estimate => h ops op [] at_ estimate rfl⟩
    rintro earlier op' later at_ estimate rfl
    exact h earlier op' (later ++ [op]) at_ estimate (by simp)
  · rintro ⟨hops, hop⟩ earlier op' later at_ estimate hsplit
    rcases List.eq_nil_or_concat later with rfl | ⟨rest, last, rfl⟩
    · obtain ⟨rfl, hlast⟩ := List.append_inj' hsplit rfl
      cases hlast
      exact hop at_ estimate
    · rw [List.concat_eq_append, ← List.cons_append, ← List.append_assoc] at hsplit
      exact hops earlier op' rest at_ estimate (List.append_inj' hsplit rfl).1

theorem PACING_WINDOW_MS_pos (period : PacingPeriod) : 0 < PACING_WINDOW_MS period := by
  cases period <;> norm_num [PACING_WINDOW_MS]

theorem PACING_WINDOW_MS_le (period : PacingPeriod) :
    PACING_WINDOW_MS period ≤ attemptStartWindow := by
  cases period <;> norm_num [PACING_WINDOW_MS, attemptStartWindow]

theorem startsWithin_eq (starts : List Number) (s : ℚ) :
    startsWithin period starts s = within (PACING_WINDOW_MS period) (instants starts) s := by
  induction starts with
  | nil => rfl
  | cons t rest ih =>
    rw [startsWithin, List.countP_cons]
    change startsWithin period rest s + _ = _
    rw [ih]
    cases t with
    | fin q =>
      have hcons : instants (.fin q :: rest) = q :: instants rest := rfl
      rw [hcons, within, within, List.countP_cons]
      simp only [Bool.decide_and]
      rfl
    | nan => rfl
    | negInf => rfl
    | posInf => rfl

theorem pairwise_instants {starts : List Number}
    (h : starts.Pairwise fun t u => t.le u = true) : (instants starts).Pairwise (· ≤ ·) := by
  refine h.filterMap _ ?_
  intro t u htu p hp q hq
  cases t with
  | fin p' =>
    cases u with
    | fin q' =>
      cases hp
      cases hq
      simpa using htu
    | _ => cases hq
  | _ => cases hp

theorem trailing_lt_of_countedFewer {w : World} {starts : List Number} {now : ℚ}
    (hkeeps : KeepsStarts starts (w.attemptLog b key))
    (hsorted : (instants starts).Pairwise (· ≤ ·)) (hnow : ∀ t ∈ instants starts, t ≤ now)
    (hlimit : limit ≤ (MAX_ATTEMPT_STARTS : ℚ)) (h : CountedFewer w b key period limit (.fin now)) :
    trailing (PACING_WINDOW_MS period) (instants starts) now < ⌈limit⌉₊ := by
  obtain ⟨deps, attempt, verdict, ⟨-, hlogs⟩, rfl, hverdict, haxis, rfl, hlt⟩ := h
  obtain ⟨kept, hkept, hretained⟩ := hkeeps
  have hretained := hretained hsorted
  obtain ⟨dropped, hall, -⟩ := id hretained
  have hkeptSorted : kept.Pairwise (· ≤ ·) := by
    rw [hall] at hsorted
    exact (List.pairwise_append.mp hsorted).2.1
  have hkeptNow : ∀ t ∈ kept, t ≤ now := by
    intro t ht
    refine hnow t ?_
    rw [hall]
    exact List.mem_append_right _ ht
  have hcount := requests_attemptsInWindow (PACING_WINDOW_MS_pos verdict.period) hkept
    hkeptSorted hkeptNow
  rw [deps.counted_eq_requests hverdict haxis, hlogs, hcount, Number.lt_fin,
    decide_eq_true_eq] at hlt
  have hlog : trailing (PACING_WINDOW_MS verdict.period) kept now < ⌈limit⌉₊ := Nat.lt_ceil.mpr hlt
  rw [hretained.trailing_eq hsorted hnow (PACING_WINDOW_MS_le _) (Nat.ceil_le.mpr hlimit) hlog]
  exact hlog

/-- **Paced starts are admitted**: since the last reset each start found fewer than the
limit before it. -/
theorem admitted_of_pacedRun [Url] (hlimit : limit ≤ (MAX_ATTEMPT_STARTS : ℚ))
    {ops : List Operation} (hpaced : PacedRun ops b key period limit)
    (hordered : (startsOn b key (history World.operate World.initial ops)).Pairwise
      fun t u => t.le u = true) :
    Admitted (PACING_WINDOW_MS period) ⌈limit⌉₊
      (instants (startsOn b key (history World.operate World.initial ops))) := by
  induction ops using List.reverseRecOn with
  | nil => exact fun earlier t later h => absurd h (by simp [startsOn, instants])
  | append_singleton ops op ih =>
    obtain ⟨hpaced', hstarted⟩ := pacedRun_snoc.mp hpaced
    rw [history_snoc, startsOn_snoc] at hordered ⊢
    cases hevent : logEvent b key
        (op, (World.operate (finalState World.operate World.initial ops) op).2) with
    | forgotten => exact fun earlier t later h => absurd h (by simp [LogEvent.record, instants])
    | unrelated =>
      rw [hevent] at hordered
      exact ih hpaced' hordered
    | started at_ estimate =>
      rw [hevent] at hordered
      have hearlier := (List.pairwise_append.mp hordered).1
      have hadmitted := ih hpaced' hearlier
      change Admitted _ _ (instants (_ ++ [at_]))
      cases hfinite : at_.isFinite with
      | false =>
        rw [instants_snoc_of_not_finite _ hfinite]
        exact hadmitted
      | true =>
        obtain ⟨now, rfl⟩ := Number.isFinite_iff.mp hfinite
        have hlast : (instants (_ ++ [Number.fin now])).Pairwise (· ≤ ·) :=
          pairwise_instants hordered
        rw [instants_snoc_fin] at hlast ⊢
        refine hadmitted.snoc ?_
        refine trailing_lt_of_countedFewer (World.keepsStarts ops b key)
          (pairwise_instants hearlier) ?_ hlimit (hstarted _ estimate hevent)
        intro t ht
        exact (List.pairwise_append.mp hlast).2.2 t ht now List.mem_cons_self

/-- **Pacing bounds every window**: where each start on a cell was made at a count of
fewer than `limit` requests in the trailing window of the period, and the starts since
the breaker's last reset came in order, no window of that width, wherever it begins,
holds more than `limit` of them. -/
theorem pacing_bounds_every_window [Url] (ops : List Operation)
    (hlimit : limit ≤ (MAX_ATTEMPT_STARTS : ℚ)) (hpaced : PacedRun ops b key period limit)
    (hordered : (startsOn b key (history World.operate World.initial ops)).Pairwise
      fun t u => t.le u = true) (s : ℚ) :
    startsWithin period (startsOn b key (history World.operate World.initial ops)) s
      ≤ ⌈limit⌉₊ := by
  rw [startsWithin_eq]
  exact within_le_of_admitted (admitted_of_pacedRun hlimit hpaced hordered) s

end Guarantee

/-! ## Example runs -/

/-- An attempt on the cell of `sampleTarget`. -/
def pacedAttempt : ResolvedAttempt where
  ref := 0
  target := { provider := "p", base := "", kind := .openai, model := some "m" }
  credentialId := "p#default"
  credentialState := .declaredPresent
  slot := { enabled := true, models := none, configIndex := 0 }

/-- One request a minute is configured. -/
def onePerMinute (w : World) : PacingDeps where
  settings := none
  states := w.statesOf 0
  attemptStarts := w.attemptStartsOf 0
  resolveConfiguredLimits := fun _ _ _ => some fun axis => if axis = .rpm then some 1 else none
  observedRateLimits := fun _ _ _ _ => []

/-- Nothing was counted against one request a minute. -/
def noneCounted : PacingVerdict := ⟨.requests, .minute, 1, ⟨.configured, rfl⟩, .fin (0 : Nat)⟩

/-- A start on the cell of `sampleTarget`. -/
def pacedStart (at_ : Number) : Operation :=
  .lifecycle (.beginAttempt 0 sampleTarget ⟨some at_, none⟩ at_)

theorem countedFewer_one {w : World} {now : Number}
    (h : noneCounted ∈ (onePerMinute w).pacingCounts pacedAttempt now) :
    CountedFewer w 0 (getKey sampleTarget) .minute 1 now :=
  ⟨onePerMinute w, pacedAttempt, noneCounted, ⟨rfl, rfl⟩, rfl, h, rfl, rfl, by decide +kernel⟩

theorem pacedRun_snoc_start {ops : List Operation} {now : Number}
    (hops : @PacedRun noUrl ops 0 (getKey sampleTarget) .minute 1)
    (hcount : noneCounted ∈ (onePerMinute (finalState (@World.operate noUrl) World.initial ops)
      ).pacingCounts pacedAttempt now) :
    @PacedRun noUrl (ops ++ [pacedStart now]) 0 (getKey sampleTarget) .minute 1 := by
  refine (@pacedRun_snoc .minute 1 0 (getKey sampleTarget) noUrl ops _).mpr ⟨hops, ?_⟩
  intro at_ estimate hevent
  obtain ⟨target, start, dateNow, hop, -, hat⟩ := eq_beginAttempt_of_logEvent hevent
  cases hop
  rw [hat]
  exact countedFewer_one hcount

theorem pacedRun_construct :
    @PacedRun noUrl ([] ++ [.lifecycle .construct]) 0 (getKey sampleTarget) .minute 1 := by
  refine (@pacedRun_snoc .minute 1 0 (getKey sampleTarget) noUrl [] _).mpr ⟨@PacedRun.nil _ _ _ _ noUrl, ?_⟩
  intro at_ estimate hevent
  cases hevent

/-- A second start once the minute has passed. -/
theorem pacing_bounds_every_window_two :
    startsWithin .minute (startsOn 0 (getKey sampleTarget)
      (history (@World.operate noUrl) World.initial
        ([] ++ [.lifecycle .construct] ++ [pacedStart 0] ++ [pacedStart 60000]))) 0
      ≤ ⌈(1 : ℚ)⌉₊ := by
  refine @pacing_bounds_every_window .minute 1 0 (getKey sampleTarget) noUrl _ ?_ ?_ ?_ 0
  · norm_num [MAX_ATTEMPT_STARTS]
  · refine pacedRun_snoc_start (pacedRun_snoc_start pacedRun_construct ?_) ?_
    · decide +kernel
    · decide +kernel
  · decide +kernel

/-- **A reset forgets the starts**: with one between them, two starts at counts below one
request a minute lie in one minute. -/
theorem reset_forgets_starts :
    ∃ ops : List Operation,
      @PacedRun noUrl ops 0 (getKey sampleTarget) .minute 1 ∧
        (startsEver 0 (getKey sampleTarget)
          (history (@World.operate noUrl) World.initial ops)).Pairwise
          (fun t u => t.le u = true) ∧
        ¬ startsWithin .minute (startsEver 0 (getKey sampleTarget)
          (history (@World.operate noUrl) World.initial ops)) 0 ≤ 1 := by
  refine ⟨[] ++ [.lifecycle .construct] ++ [pacedStart 0] ++ [.lifecycle (.reset 0)]
    ++ [pacedStart 1], ?_, ?_, ?_⟩
  · refine pacedRun_snoc_start ?_ ?_
    · refine (@pacedRun_snoc .minute 1 0 (getKey sampleTarget) noUrl _ _).mpr
        ⟨pacedRun_snoc_start pacedRun_construct ?_, ?_⟩
      · decide +kernel
      · intro at_ estimate hevent
        cases hevent
    · decide +kernel
  · decide +kernel
  · decide +kernel

end LlmRelay
