import LlmRelay.Ecma.OrderedMap
import LlmRelay.Ecma.Strings
import Mathlib.Data.Rat.Lemmas

/-!
# The lane cadence

The relay probes the lanes that it runs itself (`lane-cadence.ts`): a poke starts a catalog run
and the quota probes that are due, one run at a time, and a probe's verdict is applied to the
recorded deaths (`dispatch.ts`) when it comes. Hosts report and retract deaths all the while.

## Main definitions

* `Cooldowns`: the recorded deaths, with the time each ends;
* `Cadence`, `Event`, `step`: the deaths, the run in flight and the stamps of the buckets;
* `VerdictKept`, `NoneOverridden`: what a verdict may change, and when it changes no more.

## Main results

* `verdictKept_iff`: one step;
* `newer_evidence_kept_iff`: every run.
-/

namespace LlmRelay.LaneCadence


open Ecma

/-! ## Recorded deaths -/

def DEFAULT_EXHAUSTED_MS : ℚ := 15 * 60 * 1000

def MAX_EXHAUSTED_MS : ℚ := 30 * 24 * 60 * 60 * 1000

inductive DispatchOutcome where
  | rate_limited
  | quota_exhausted

def OUTCOME_DEFAULT_MS : DispatchOutcome → ℚ
  | .rate_limited => DEFAULT_EXHAUSTED_MS
  | .quota_exhausted => 60 * 60 * 1000

/-- The end of the recorded death of each bucket, in milliseconds. -/
abbrev Cooldowns := OrderedMap Text ℚ

/-- The duration that a host reports; `none` is no finite number. -/
def normalizeTtl (ttlMs : Option ℚ) : ℚ :=
  match ttlMs with
  | none => DEFAULT_EXHAUSTED_MS
  | some ttlMs => min MAX_EXHAUSTED_MS (max 0 ttlMs)

def clampExhaustedDeadline (untilMs now : ℚ) : ℚ :=
  min (max now untilMs) (now + MAX_EXHAUSTED_MS)

def markExhaustedKey (m : Cooldowns) (key : Text) (untilMs now : ℚ) : Cooldowns :=
  if key = [] then m else m.set key (clampExhaustedDeadline untilMs now)

def clearExhaustedKey (m : Cooldowns) (key : Text) : Cooldowns :=
  m.delete key

def exportExhaustedRows (m : Cooldowns) (now : ℚ) : List (Text × ℚ) :=
  m.entries.filter fun row => decide (now < row.2)

/-- A bucket carries a recorded death that has not ended. -/
def Dead (m : Cooldowns) (now : ℚ) (key : Text) : Prop :=
  ∃ ends, m.get? key = some ends ∧ now < ends

instance (m : Cooldowns) (now : ℚ) (key : Text) : Decidable (Dead m now key) :=
  match h : m.get? key with
  | none => .isFalse fun ⟨_, hends, _⟩ => by rw [h] at hends; cases hends
  | some ends =>
    if hlt : now < ends then .isTrue ⟨ends, h, hlt⟩
    else .isFalse fun ⟨_, hends, hlt'⟩ => by rw [h] at hends; cases hends; exact hlt hlt'

variable {key : Text}

theorem mem_exportExhaustedRows {m : Cooldowns} {now : ℚ} :
    key ∈ (exportExhaustedRows m now).map Prod.fst ↔ Dead m now key := by
  rw [List.mem_map]
  constructor
  · rintro ⟨row, hrow, rfl⟩
    obtain ⟨hmem, hlt⟩ := List.mem_filter.mp hrow
    exact ⟨row.2, (m.mem_entries_iff).mp hmem, of_decide_eq_true hlt⟩
  · rintro ⟨ends, hget, hlt⟩
    exact ⟨(key, ends), List.mem_filter.mpr ⟨(m.mem_entries_iff).mpr hget, decide_eq_true hlt⟩, rfl⟩

/-! ## The cadence -/

/-- The settings, the lanes that a catalog run asks and the buckets that have a probe. -/
structure Config where
  enabled : Bool
  quotaIntervalMs : ℚ
  catalogIntervalMs : ℚ
  laneCommands : List Text
  laneQuotaTargets : List Text

inductive LaneQuotaVerdict where
  | alive
  | exhausted (outcome : DispatchOutcome) (retryAfterMs : Option ℚ)
  | inconclusive

/-- The run behind the latch: in its catalog part, with the buckets to probe after it, or in its
quota part, with the start of every probe that has not ended. -/
inductive InFlight where
  | none
  | catalog (quotaDueKeys : List Text)
  | quota (running : OrderedMap Text ℚ)

/-- The cadence and the deaths it reads and writes. -/
structure Cadence where
  cooldowns : Cooldowns
  inFlight : InFlight
  lastCatalogRunAt : ℚ
  quotaAttemptAt : OrderedMap Text ℚ

def Cadence.new (cooldowns : Cooldowns) : Cadence :=
  { cooldowns, inFlight := .none, lastCatalogRunAt := 0, quotaAttemptAt := .empty }

/-- The probes that run. -/
def Cadence.running (c : Cadence) : OrderedMap Text ℚ :=
  match c.inFlight with
  | .quota running => running
  | _ => .empty

/-- What the manifest states of a lane: nothing, a time that cannot be read, or a time. -/
abbrev Manifest := Text → Option (Option ℚ)

def catalogDue (cfg : Config) (c : Cadence) (manifest : Manifest) (now : ℚ) : Bool :=
  if now - c.lastCatalogRunAt < cfg.catalogIntervalMs then false
  else cfg.laneCommands.any fun lane =>
    match manifest lane with
    | some (some probed) => decide (cfg.catalogIntervalMs ≤ now - probed)
    | _ => true

/-- A dead bucket is stamped when it is seen first, and due once its stamp is old enough. -/
def stampOrDue (cfg : Config) (now : ℚ) (due : List Text × OrderedMap Text ℚ) (key : Text) :
    List Text × OrderedMap Text ℚ :=
  match due.2.get? key with
  | none => (due.1, due.2.set key now)
  | some stamp => if cfg.quotaIntervalMs ≤ now - stamp then (due.1 ++ [key], due.2) else due

/-- The due buckets, with the stamps that are left. -/
def quotaDue (cfg : Config) (c : Cadence) (now : ℚ) : List Text × OrderedMap Text ℚ :=
  let dead := (exportExhaustedRows c.cooldowns now).map Prod.fst
  dead.foldl (stampOrDue cfg now)
    ([], c.quotaAttemptAt.filterKeys fun key => decide (key ∈ dead))

/-- Each bucket stored with its reading of the clock. -/
def stampAll (clock : Text → ℚ) (m : OrderedMap Text ℚ) (keys : List Text) : OrderedMap Text ℚ :=
  keys.foldl (fun m key => m.set key (clock key)) m

/-- The buckets that the quota part of a run probes. -/
def probed (cfg : Config) (quotaDueKeys : List Text) : List Text :=
  quotaDueKeys.filter fun key => decide (key ∈ cfg.laneQuotaTargets)

/-- The quota part of a run: every due bucket with a target is stamped, and its probe starts. -/
def runQuota (cfg : Config) (clock : Text → ℚ) (quotaDueKeys : List Text) (c : Cadence) : Cadence :=
  { c with
    quotaAttemptAt := stampAll clock c.quotaAttemptAt (probed cfg quotaDueKeys)
    inFlight := .quota (stampAll clock .empty (probed cfg quotaDueKeys)) }

def poke (cfg : Config) (now : ℚ) (manifest : Manifest) (clock : Text → ℚ) (c : Cadence) : Cadence :=
  if cfg.enabled = false then c
  else match c.inFlight with
  | .none =>
    let (due, stamps) := quotaDue cfg c now
    let seen := { c with quotaAttemptAt := stamps }
    if catalogDue cfg c manifest now then
      { seen with lastCatalogRunAt := now, inFlight := .catalog due }
    else if due = [] then seen
    else runQuota cfg clock due seen
  | _ => c

/-- A verdict is applied by the key of its bucket; `none` is a probe that threw. -/
def applyVerdict (key : Text) (startedAt : ℚ) (verdict : Option LaneQuotaVerdict) (c : Cadence) :
    Cadence :=
  match verdict with
  | some .alive =>
    { c with
      cooldowns := clearExhaustedKey c.cooldowns key
      quotaAttemptAt := c.quotaAttemptAt.delete key }
  | some (.exhausted outcome retryAfterMs) =>
    let ttl := retryAfterMs.getD (OUTCOME_DEFAULT_MS outcome)
    { c with cooldowns := markExhaustedKey c.cooldowns key (startedAt + ttl) startedAt }
  | _ => c

/-- What happens to the cadence: a host reports a death, with the two readings of its clock, or
retracts one or all; the cadence is poked; its catalog run ends, and the quota part reads the
clock; a probe ends; the latch of a run that has ended opens. -/
inductive Event where
  | markExhausted (key : Text) (ttlMs : Option ℚ) (read now : ℚ)
  | clearExhausted (key : Option Text)
  | poke (now : ℚ) (manifest : Manifest) (clock : Text → ℚ)
  | catalogDone (clock : Text → ℚ)
  | probeDone (key : Text) (verdict : Option LaneQuotaVerdict)
  | settled

def step (cfg : Config) (c : Cadence) (e : Event) : Cadence :=
  match e with
  | .markExhausted key ttlMs read now =>
    { c with cooldowns := markExhaustedKey c.cooldowns key (read + normalizeTtl ttlMs) now }
  | .clearExhausted none => { c with cooldowns := .empty }
  | .clearExhausted (some key) => { c with cooldowns := clearExhaustedKey c.cooldowns key }
  | .poke now manifest clock => poke cfg now manifest clock c
  | .catalogDone clock =>
    match c.inFlight with
    | .catalog due => runQuota cfg clock due c
    | _ => c
  | .probeDone key verdict =>
    match c.running.get? key with
    | some startedAt =>
      applyVerdict key startedAt verdict { c with inFlight := .quota (c.running.delete key) }
    | none => c
  | .settled => if c.running.entries = [] then
      match c.inFlight with
      | .quota _ => { c with inFlight := .none }
      | _ => c
    else c

/-! ## Newer evidence -/

/-- The buckets for which a host reported a death since their last probe began, and did not
retract it. -/
def newerAfter (cfg : Config) (c : Cadence) (newer : Text → Bool) (e : Event) (key : Text) : Bool :=
  if (step cfg c e).running.has key && !c.running.has key then false
  else match e with
  | .markExhausted marked _ _ _ => newer key || decide (marked = key)
  | .clearExhausted none => false
  | .clearExhausted (some cleared) => newer key && !decide (cleared = key)
  | _ => newer key

/-- Something is so of every step of a run. -/
def Throughout (cfg : Config) (P : Cadence → (Text → Bool) → Event → Prop) :
    Cadence → (Text → Bool) → List Event → Prop
  | _, _, [] => True
  | c, newer, e :: es =>
    P c newer e ∧ Throughout cfg P (step cfg c e) (newerAfter cfg c newer e) es

theorem Throughout.congr {cfg : Config} {P Q : Cadence → (Text → Bool) → Event → Prop}
    (h : ∀ c newer e, P c newer e ↔ Q c newer e) (c : Cadence) (newer : Text → Bool)
    (es : List Event) : Throughout cfg P c newer es ↔ Throughout cfg Q c newer es := by
  induction es generalizing c newer with
  | nil => rfl
  | cons e es ih => exact and_congr (h c newer e) (ih _ _)

/-- A probe's verdict changes no other bucket, changes none when it is inconclusive, and neither
removes nor brings forward the end of a death reported since the probe began. -/
def VerdictKept (cfg : Config) (c : Cadence) (newer : Text → Bool) : Event → Prop
  | .probeDone key verdict =>
    let after := (step cfg c (.probeDone key verdict)).cooldowns
    (∀ other, other ≠ key → after.get? other = c.cooldowns.get? other)
      ∧ (verdict = some .inconclusive ∨ verdict = none → after = c.cooldowns)
      ∧ (newer key = true → ∀ ends, c.cooldowns.get? key = some ends →
        ∃ ends', after.get? key = some ends' ∧ ends ≤ ends')
  | _ => True

/-- No probe ends as alive when a death was reported since it began, and none as exhausted up to a
time before the end of such a death. -/
def NoneOverridden (c : Cadence) (newer : Text → Bool) : Event → Prop
  | .probeDone key verdict =>
    ∀ startedAt ends, c.running.get? key = some startedAt → newer key = true →
      c.cooldowns.get? key = some ends → match verdict with
      | some .alive => False
      | some (.exhausted outcome retryAfterMs) => key = [] ∨ ends ≤ clampExhaustedDeadline
          (startedAt + retryAfterMs.getD (OUTCOME_DEFAULT_MS outcome)) startedAt
      | _ => True
  | _ => True

theorem get?_markExhaustedKey (m : Cooldowns) (hkey : key ≠ []) (untilMs now : ℚ)
    (other : Text) : (markExhaustedKey m key untilMs now).get? other
      = if key = other then some (clampExhaustedDeadline untilMs now) else m.get? other := by
  rw [markExhaustedKey, if_neg hkey, OrderedMap.get?_set]

/-- One verdict, of a probe that runs. -/
theorem cooldowns_probeDone {cfg : Config} {c : Cadence} {startedAt : ℚ}
    (hrun : c.running.get? key = some startedAt) (verdict : Option LaneQuotaVerdict) :
    (step cfg c (.probeDone key verdict)).cooldowns = match verdict with
      | some .alive => clearExhaustedKey c.cooldowns key
      | some (.exhausted outcome retryAfterMs) => markExhaustedKey c.cooldowns key
          (startedAt + retryAfterMs.getD (OUTCOME_DEFAULT_MS outcome)) startedAt
      | _ => c.cooldowns := by
  simp only [step, hrun]
  rcases verdict with _ | _ | ⟨_, _⟩ | _ <;> rfl

theorem verdictKept_iff (cfg : Config) (c : Cadence) (newer : Text → Bool) (e : Event) :
    VerdictKept cfg c newer e ↔ NoneOverridden c newer e := by
  cases e with
  | probeDone key verdict =>
    rw [VerdictKept, NoneOverridden]
    cases hrun : c.running.get? key with
    | none =>
      have hstep : step cfg c (.probeDone key verdict) = c := by simp only [step, hrun]
      rw [hstep]
      exact ⟨fun _ _ _ h => (by cases h),
        fun _ => ⟨fun _ _ => rfl, fun _ => rfl, fun _ ends h => ⟨ends, h, le_rfl⟩⟩⟩
    | some startedAt =>
      rw [cooldowns_probeDone hrun]
      rcases verdict with _ | _ | ⟨outcome, retryAfterMs⟩ | _
      · exact ⟨fun _ _ _ _ _ _ => trivial,
          fun _ => ⟨fun _ _ => rfl, fun _ => rfl, fun _ ends h => ⟨ends, h, le_rfl⟩⟩⟩
      · -- an answer removes the death, whichever it is
        have hgone : (clearExhaustedKey c.cooldowns key).get? key = none := by
          rw [clearExhaustedKey, OrderedMap.get?_delete, if_pos rfl]
        constructor
        · rintro ⟨_, _, hkept⟩ _ ends _ hnewer hends
          obtain ⟨_, hget, _⟩ := hkept hnewer ends hends
          rw [hgone] at hget
          cases hget
        · intro hnone
          refine ⟨fun other hne => ?_, ?_, fun hnewer ends hends => ?_⟩
          · dsimp only
            rw [clearExhaustedKey, OrderedMap.get?_delete, if_neg (Ne.symm hne)]
          · rintro (h | h) <;> cases h
          · exact (hnone startedAt ends rfl hnewer hends).elim
      · dsimp only
        by_cases hkey : key = []
        · rw [markExhaustedKey, if_pos hkey]
          exact ⟨fun _ _ _ _ _ _ => .inl hkey,
            fun _ => ⟨fun _ _ => rfl, fun _ => rfl, fun _ ends h => ⟨ends, h, le_rfl⟩⟩⟩
        constructor
        · rintro ⟨_, _, hkept⟩ started ends hstarted hnewer hends
          cases hstarted
          obtain ⟨ends', hget, hle⟩ := hkept hnewer ends hends
          rw [get?_markExhaustedKey _ hkey, if_pos rfl, Option.some.injEq] at hget
          exact .inr (hget ▸ hle)
        · intro hnone
          refine ⟨fun other hne => ?_, ?_, fun hnewer ends hends => ?_⟩
          · rw [get?_markExhaustedKey _ hkey, if_neg (Ne.symm hne)]
          · rintro (h | h) <;> cases h
          · refine ⟨_, by rw [get?_markExhaustedKey _ hkey, if_pos rfl], ?_⟩
            exact (hnone startedAt ends rfl hnewer hends).resolve_left hkey
      · exact ⟨fun _ _ _ _ _ _ => trivial,
          fun _ => ⟨fun _ _ => rfl, fun _ => rfl, fun _ ends h => ⟨ends, h, le_rfl⟩⟩⟩
  | _ => exact Iff.rfl

/-- **Newer evidence outlives an older probe in every run** whose conclusive verdicts come before
any report that they would undo. -/
theorem newer_evidence_kept_iff (cfg : Config) (cooldowns : Cooldowns) (es : List Event) :
    Throughout cfg (VerdictKept cfg) (.new cooldowns) (fun _ => false) es
      ↔ Throughout cfg NoneOverridden (.new cooldowns) (fun _ => false) es :=
  Throughout.congr (verdictKept_iff cfg) _ _ _

/-- One bucket, probed every minute. -/
def oneBucket : Config where
  enabled := true
  quotaIntervalMs := 60000
  catalogIntervalMs := 86400000
  laneCommands := []
  laneQuotaTargets := [text "quota:a"]

/-- A probe starts, a host reports a later death, and the probe's answer comes. -/
def reportDuringProbe : List Event :=
  [.markExhausted (text "quota:a") (some 900000) 0 0, .poke 0 (fun _ => none) fun _ => 0,
    .poke 60000 (fun _ => none) fun _ => 60000,
    .markExhausted (text "quota:a") (some 3600000) 61000 61000,
    .probeDone (text "quota:a") (some .alive)]

/-- **The report is removed by the answer of the probe that began before it.** -/
theorem report_removed_by_older_probe :
    ¬ Throughout oneBucket (VerdictKept oneBucket) (.new .empty) (fun _ => false) reportDuringProbe := by
  rw [Throughout.congr (verdictKept_iff oneBucket)]
  intro h
  exact h.2.2.2.2.1 60000 3661000 (by decide +kernel) (by decide +kernel) (by decide +kernel)

end LlmRelay.LaneCadence
