import LlmRelay.Breaker.State
import LlmRelay.Transition.Run

/-!
# The probe cache

The outcomes of probes are kept for each model, with a bounded window of samples into which the
latencies of served requests go as well (`ping/probe-cache.ts`). A model whose last probe failed
is probed again after a delay that doubles with each failed sample at the end of the window.

## Main definitions

* `ProbeEntry`, `ProbeCacheData`: what is kept;
* `recordProbeResult`, `recordRequestSample`: the two writers;
* `getModelsDueForProbe`: the models to probe;
* `Unobtrusive`: a call that cuts no streak of failed samples short.

## Main results

* `probe_schedule_kept_iff`: requests leave the schedule of a run alone, whatever is probed
  afterwards, exactly where every call was unobtrusive.
-/

namespace LlmRelay.Ping

open Ecma Transition

/-! ## The cache -/

def DEFAULT_PROBE_TTL_MS : Number := 86400000

def BROKEN_PROBE_BACKOFF_BASE_MS : Nat := 60000

def CURRENT_PROBE_VERSION : Nat := 3

def MAX_SAMPLES : Nat := 25

inductive ProbeStatus where
  | ok | broken
  deriving DecidableEq

/-- The counters that outlive the window. -/
structure ProbeTotals where
  probes : Nat
  ok : Nat
  sumMs : Number
  firstProbedAt : Number
  deriving DecidableEq

structure ProbeEntry where
  modelId : String
  status : ProbeStatus
  lastProbedAt : Number
  probeVersion : Nat
  ms : Number
  code : String
  quotaObservations : List QuotaObservation
  samples : Option (List PingRecord)
  totals : Option ProbeTotals
  deriving DecidableEq

/-- The entries by provider and model. -/
structure ProbeCacheData where
  version : Nat
  providers : OrderedMap String (OrderedMap String ProbeEntry)

def emptyCache : ProbeCacheData :=
  ⟨CURRENT_PROBE_VERSION, .empty⟩

/-- `cache.providers[providerKey]?.models[modelId]`. -/
def ProbeCacheData.entryOf (cache : ProbeCacheData) (providerKey modelId : String) :
    Option ProbeEntry :=
  (cache.providers.get? providerKey).bind (·.get? modelId)

/-- `cache.providers[providerKey].models[modelId] = entry`; a missing provider is added. -/
def ProbeCacheData.setEntry (cache : ProbeCacheData) (providerKey modelId : String)
    (entry : ProbeEntry) : ProbeCacheData :=
  { cache with
    providers := cache.providers.set providerKey
      (((cache.providers.get? providerKey).getD .empty).set modelId entry) }

variable (cache : ProbeCacheData)

theorem ProbeCacheData.entryOf_setEntry (providerKey modelId : String)
    (entry : ProbeEntry) (p m : String) :
    (cache.setEntry providerKey modelId entry).entryOf p m
      = if providerKey = p ∧ modelId = m then some entry else cache.entryOf p m := by
  unfold entryOf setEntry
  rw [OrderedMap.get?_set]
  by_cases hp : providerKey = p
  · subst hp
    rw [if_pos rfl, Option.bind_some, OrderedMap.get?_set]
    cases cache.providers.get? providerKey <;> simp
  · rw [if_neg hp, if_neg (fun h => hp h.1)]

/-! ## Samples -/

/-- The last samples of a window that is full. -/
def windowed (samples : List PingRecord) : List PingRecord :=
  if MAX_SAMPLES < samples.length then samples.drop (samples.length - MAX_SAMPLES) else samples

/-- How many samples at the end of a window are not of code 200. -/
def brokenStreak (samples : List PingRecord) : Nat :=
  (samples.reverse.takeWhile fun sample => sample.code ≠ "200").length

def trailingBrokenSamples (entry : ProbeEntry) : Nat :=
  Nat.max 1 (brokenStreak (entry.samples.getD []))

theorem brokenStreak_snoc (samples : List PingRecord) (sample : PingRecord) :
    brokenStreak (samples ++ [sample])
      = if sample.code = "200" then 0 else brokenStreak samples + 1 := by
  unfold brokenStreak
  by_cases hcode : sample.code = "200" <;> simp [hcode]

theorem brokenStreak_windowed (samples : List PingRecord) :
    brokenStreak (windowed samples) = Nat.min MAX_SAMPLES (brokenStreak samples) := by
  have hwindow : windowed samples = samples.drop (samples.length - MAX_SAMPLES) := by
    unfold windowed
    split
    · rfl
    · rw [Nat.sub_eq_zero_of_le (by omega), List.drop_zero]
  have hle : brokenStreak samples ≤ samples.length := by
    rw [← samples.length_reverse]
    exact (List.takeWhile_sublist _).length_le
  rw [hwindow, brokenStreak, List.reverse_drop, ← List.take_takeWhile, List.length_take]
  change min _ (brokenStreak samples) = min MAX_SAMPLES (brokenStreak samples)
  omega

/-! ## Writing -/

/-- What a probe found. -/
structure ProbeResult where
  code : String
  ms : Number
  quotaObservations : List QuotaObservation
  deriving DecidableEq

/-- The entry of a model after a probe. -/
def probedEntry (prev : Option ProbeEntry) (modelId : String) (result : ProbeResult)
    (now : Number) (probeVersion : Nat) : ProbeEntry :=
  let isOk := result.code = "200"
  let prevSamples := (prev.bind (·.samples)).getD []
  let prevTotals := prev.bind (·.totals)
  { modelId
    status := if isOk then .ok else .broken
    lastProbedAt := now
    probeVersion
    ms := result.ms
    code := result.code
    quotaObservations :=
      mergeQuotaObservations [(prev.map (·.quotaObservations)).getD [], result.quotaObservations]
    samples := some (windowed (prevSamples ++ [⟨result.ms, result.code, now, none, none⟩]))
    totals := some
      { probes := (prevTotals.map (·.probes)).getD 0 + 1
        ok := (prevTotals.map (·.ok)).getD 0 + if isOk then 1 else 0
        sumMs := Number.add ((prevTotals.map (·.sumMs)).getD 0) result.ms
        firstProbedAt := (prevTotals.map (·.firstProbedAt)).getD now } }

def recordProbeResult (cache : ProbeCacheData) (providerKey modelId : String)
    (result : ProbeResult) (now : Number) (probeVersion : Nat) : ProbeCacheData × ProbeEntry :=
  let entry := probedEntry (cache.entryOf providerKey modelId) modelId result now probeVersion
  ({ cache with version := CURRENT_PROBE_VERSION }.setEntry providerKey modelId entry, entry)

/-- The latency of a served request. -/
structure RequestSample where
  ms : Number
  tokens : Option Number
  deriving DecidableEq

/-- Is the latency a finite time? -/
def RequestSample.isMeasured (sample : RequestSample) : Bool :=
  sample.ms.isFinite && !sample.ms.lt 0

/-- The sample of a served request. -/
def RequestSample.record (sample : RequestSample) (now : Number) : PingRecord where
  ms := sample.ms
  code := "200"
  timestamp := now
  tokens := sample.tokens.filter fun tokens => tokens.isFinite && Number.lt 0 tokens
  source := some .request

/-- An entry with one more sample of a request. -/
def ProbeEntry.withRequest (entry : ProbeEntry) (sample : RequestSample) (now : Number) :
    ProbeEntry :=
  { entry with samples := some (windowed (entry.samples.getD [] ++ [sample.record now])) }

/-- Adds the sample of a request to the window of a model that was probed before. -/
def recordRequestSample (cache : ProbeCacheData) (providerKey modelId : String)
    (sample : RequestSample) (now : Number) : ProbeCacheData :=
  if sample.isMeasured then
    match cache.entryOf providerKey modelId with
    | none => cache
    | some entry => cache.setEntry providerKey modelId (entry.withRequest sample now)
  else cache

/-! ## The models to probe -/

/-- What a query for the models to probe states. -/
structure ProbeQuery where
  ttlMs : Number := DEFAULT_PROBE_TTL_MS
  now : Number
  probeVersion : Nat := CURRENT_PROBE_VERSION
  lastSuccessfulCallAt : String → Option Number := fun _ => none

/-- How long a model that failed some samples in a row is left alone. -/
def backoffMs (failures : Nat) : Number :=
  .fin (BROKEN_PROBE_BACKOFF_BASE_MS * 2 ^ Nat.min 10 (failures - 1) : Nat)

/-- Is the model to be probed? -/
def ProbeQuery.isDue (opts : ProbeQuery) (entry : Option ProbeEntry) (id : String) : Bool :=
  let passiveSuccessAt := opts.lastSuccessfulCallAt id
  match entry with
  | none => passiveSuccessAt.all fun at_ => opts.ttlMs.le (opts.now.sub at_)
  | some entry =>
    if entry.probeVersion ≠ opts.probeVersion then true
    else
      match passiveSuccessAt.filter fun at_ => entry.lastProbedAt.lt at_ with
      | some at_ => opts.ttlMs.le (opts.now.sub at_)
      | none =>
        if entry.status = .broken then
          (opts.ttlMs.min (backoffMs (trailingBrokenSamples entry))).le
            (opts.now.sub entry.lastProbedAt)
        else opts.ttlMs.le (opts.now.sub entry.lastProbedAt)

def getModelsDueForProbe (cache : ProbeCacheData) (providerKey : String)
    (modelIds : List String) (opts : ProbeQuery) : List String :=
  modelIds.filter fun id => opts.isDue (cache.entryOf providerKey id) id

/-! ## Runs -/

/-- A call that writes to the cache. -/
inductive CacheCall where
  | probe (providerKey modelId : String) (result : ProbeResult) (now : Number)
      (probeVersion : Nat)
  | request (providerKey modelId : String) (sample : RequestSample) (now : Number)
  deriving DecidableEq

def CacheCall.isProbe : CacheCall → Bool
  | .probe .. => true
  | .request .. => false

def ProbeCacheData.call (cache : ProbeCacheData) : CacheCall → ProbeCacheData
  | .probe providerKey modelId result now probeVersion =>
    (recordProbeResult cache providerKey modelId result now probeVersion).1
  | .request providerKey modelId sample now =>
    recordRequestSample cache providerKey modelId sample now

/-- The cache after some calls. -/
def ProbeCacheData.run (cache : ProbeCacheData) (calls : List CacheCall) : ProbeCacheData :=
  calls.foldl ProbeCacheData.call cache

/-- Do two caches give the same models to probe, whatever is asked? -/
def SameDue (cache cache' : ProbeCacheData) : Prop :=
  ∀ providerKey modelIds opts, getModelsDueForProbe cache providerKey modelIds opts
    = getModelsDueForProbe cache' providerKey modelIds opts

/-- A request whose sample is kept finds no failed sample at the end of the window. -/
def Unobtrusive (cache : ProbeCacheData) : CacheCall → Prop
  | .probe .. => True
  | .request providerKey modelId sample _ => sample.isMeasured = true →
      ∀ entry, cache.entryOf providerKey modelId = some entry →
        brokenStreak (entry.samples.getD []) = 0

/-! ## What scheduling depends on -/

/-- The part of an entry that decides when the model is probed. -/
structure ProbeSchedule where
  status : ProbeStatus
  lastProbedAt : Number
  probeVersion : Nat
  streak : Nat

def ProbeEntry.schedule (entry : ProbeEntry) : ProbeSchedule :=
  ⟨entry.status, entry.lastProbedAt, entry.probeVersion, brokenStreak (entry.samples.getD [])⟩

/-- Two caches with the same models on the same schedules. -/
def SameSchedules (cache cache' : ProbeCacheData) : Prop :=
  ∀ p m, (cache.entryOf p m).map ProbeEntry.schedule = (cache'.entryOf p m).map ProbeEntry.schedule

theorem isDue_eq_of_schedule_eq (opts : ProbeQuery) {entry entry' : Option ProbeEntry}
    (h : entry.map ProbeEntry.schedule = entry'.map ProbeEntry.schedule) (id : String) :
    opts.isDue entry id = opts.isDue entry' id := by
  rcases entry with _ | entry <;> rcases entry' with _ | entry'
  · rfl
  · cases h
  · cases h
  · simp only [Option.map_some, Option.some.injEq, ProbeEntry.schedule, ProbeSchedule.mk.injEq] at h
    obtain ⟨hstatus, hlast, hversion, hstreak⟩ := h
    simp only [ProbeQuery.isDue, trailingBrokenSamples, hstatus, hlast, hversion, hstreak]

theorem SameSchedules.sameDue {cache cache' : ProbeCacheData} (h : SameSchedules cache cache') :
    SameDue cache cache' := by
  intro providerKey modelIds opts
  unfold getModelsDueForProbe
  congr 1
  ext id
  rw [isDue_eq_of_schedule_eq opts (h providerKey id) id]

theorem schedule_probedEntry (prev : Option ProbeEntry) (modelId : String) (result : ProbeResult)
    (now : Number) (probeVersion : Nat) :
    (probedEntry prev modelId result now probeVersion).schedule
      = ⟨if result.code = "200" then .ok else .broken, now, probeVersion,
          Nat.min MAX_SAMPLES
            (if result.code = "200" then 0
            else ((prev.map ProbeEntry.schedule).map (·.streak)).getD 0 + 1)⟩ := by
  unfold ProbeEntry.schedule probedEntry
  rw [Option.getD_some, brokenStreak_windowed, brokenStreak_snoc]
  rcases prev with _ | prev <;> rfl

theorem schedule_withRequest (entry : ProbeEntry) (sample : RequestSample) (now : Number) :
    (entry.withRequest sample now).schedule = { entry.schedule with streak := 0 } := by
  unfold ProbeEntry.schedule ProbeEntry.withRequest
  rw [Option.getD_some, brokenStreak_windowed, brokenStreak_snoc]
  rfl

section Steps

variable {cache cache' : ProbeCacheData}

/-- A probe keeps equal schedules equal. -/
theorem SameSchedules.probe (h : SameSchedules cache cache') (providerKey modelId : String)
    (result : ProbeResult) (now : Number) (probeVersion : Nat) :
    SameSchedules (recordProbeResult cache providerKey modelId result now probeVersion).1
      (recordProbeResult cache' providerKey modelId result now probeVersion).1 := by
  intro p m
  unfold recordProbeResult
  rw [ProbeCacheData.entryOf_setEntry, ProbeCacheData.entryOf_setEntry]
  split
  · rw [Option.map_some, Option.map_some, schedule_probedEntry, schedule_probedEntry]
    rw [h providerKey modelId]
  · exact h p m

/-- So does an unobtrusive request to one of them. -/
theorem SameSchedules.request (h : SameSchedules cache cache') {providerKey modelId : String}
    {sample : RequestSample} {now : Number}
    (hquiet : Unobtrusive cache (.request providerKey modelId sample now)) :
    SameSchedules (recordRequestSample cache providerKey modelId sample now) cache' := by
  unfold recordRequestSample
  by_cases hmeasured : sample.isMeasured = true
  · rw [if_pos hmeasured]
    cases hentry : cache.entryOf providerKey modelId with
    | none => exact h
    | some entry =>
      intro p m
      rw [ProbeCacheData.entryOf_setEntry]
      split
      · rename_i hkey
        obtain ⟨rfl, rfl⟩ := hkey
        rw [← h providerKey modelId, hentry, Option.map_some, schedule_withRequest, Option.map_some]
        -- the streak was zero before
        have hzero : entry.schedule.streak = 0 := hquiet hmeasured entry hentry
        rw [← hzero]
      · exact h p m
  · rw [if_neg hmeasured]
    exact h

end Steps

/-! ## A streak that was cut short -/

/-- A probe that fails at the time zero. -/
def failedProbe (providerKey modelId : String) : CacheCall :=
  .probe providerKey modelId ⟨"500", 0, []⟩ 0 CURRENT_PROBE_VERSION

/-- A query a minute later, with a long time to live. -/
def minuteLater : ProbeQuery where
  now := 60000

theorem backoffMs_le_minute_iff (failures : Nat) :
    (Number.min DEFAULT_PROBE_TTL_MS (backoffMs failures)).le 60000 = true ↔ failures ≤ 1 := by
  have hmin : ∀ n : Nat, (Number.min DEFAULT_PROBE_TTL_MS (.fin n)).le 60000 = true ↔
      n ≤ 60000 := by
    intro n
    unfold Number.min DEFAULT_PROBE_TTL_MS
    rw [if_neg (by simp [OfNat.ofNat])]
    by_cases hle : (Number.le 86400000 (.fin n)) = true
    · rw [if_pos hle]
      have hlong : (86400000 : ℚ) ≤ n := of_decide_eq_true hle
      refine ⟨fun h => absurd h (by decide +kernel), fun h => ?_⟩
      have hshort : (n : ℚ) ≤ 60000 := by exact_mod_cast h
      exact absurd (hlong.trans hshort) (by decide +kernel)
    · rw [if_neg hle]
      change decide ((n : ℚ) ≤ 60000) = true ↔ _
      rw [decide_eq_true_iff]
      exact_mod_cast Iff.rfl
  unfold backoffMs BROKEN_PROBE_BACKOFF_BASE_MS
  rw [hmin]
  constructor
  · intro h
    by_contra hmany
    have hpow : 2 ^ 1 ≤ 2 ^ Nat.min 10 (failures - 1) :=
      Nat.pow_le_pow_right (by decide) (Nat.le_min.mpr ⟨by decide, by omega⟩)
    omega
  · intro h
    rw [Nat.sub_eq_zero_of_le h]
    decide

theorem isDue_minuteLater_iff {entry : ProbeEntry} (id : String) {streak : Nat}
    (h : entry.schedule = ⟨.broken, 0, CURRENT_PROBE_VERSION, streak⟩) :
    minuteLater.isDue (some entry) id = true ↔ streak ≤ 1 := by
  simp only [ProbeEntry.schedule, ProbeSchedule.mk.injEq] at h
  obtain ⟨hstatus, hlast, hversion, hstreak⟩ := h
  simp only [ProbeQuery.isDue, minuteLater, hversion, Option.filter_none, hstatus, hlast,
    trailingBrokenSamples, hstreak, ne_eq, not_true_eq_false, if_false, if_true]
  have helapsed : Number.sub 60000 0 = 60000 := by decide +kernel
  rw [helapsed, backoffMs_le_minute_iff]
  exact ⟨fun h => (Nat.le_max_right _ _).trans h, fun h => Nat.max_le.mpr ⟨le_rfl, h⟩⟩

section Runs

variable {cache cache' : ProbeCacheData}

@[simp] theorem run_snoc (calls : List CacheCall) (call : CacheCall) :
    cache.run (calls ++ [call]) = (cache.run calls).call call := by
  rw [ProbeCacheData.run, List.foldl_append]
  rfl

theorem run_append (calls later : List CacheCall) :
    cache.run (calls ++ later) = (cache.run calls).run later :=
  List.foldl_append

theorem SameSchedules.run_probes (h : SameSchedules cache cache') {later : List CacheCall}
    (hprobes : ∀ call ∈ later, call.isProbe = true) :
    SameSchedules (cache.run later) (cache'.run later) := by
  induction later generalizing cache cache' with
  | nil => exact h
  | cons call later ih =>
    cases call with
    | probe providerKey modelId result now probeVersion =>
      exact ih (h.probe providerKey modelId result now probeVersion) fun other hother =>
        hprobes other (List.mem_cons_of_mem _ hother)
    | request providerKey modelId sample now =>
      cases hprobes _ List.mem_cons_self

theorem sameSchedules_run {calls : List CacheCall}
    (h : ∀ pre call, pre ++ [call] <+: calls → Unobtrusive (cache.run pre) call) :
    SameSchedules (cache.run calls) (cache.run (calls.filter CacheCall.isProbe)) := by
  induction calls using List.reverseRecOn with
  | nil => exact fun _ _ => rfl
  | append_singleton calls call ih =>
    have hsame := ih fun pre other hpre => h pre other (hpre.trans (List.prefix_append _ _))
    have hquiet := h calls call List.prefix_rfl
    rw [run_snoc, List.filter_append]
    cases call with
    | probe providerKey modelId result now probeVersion =>
      change SameSchedules _ (cache.run (_ ++ [_]))
      rw [run_snoc]
      exact hsame.probe providerKey modelId result now probeVersion
    | request providerKey modelId sample now =>
      change SameSchedules _ (cache.run (_ ++ []))
      rw [List.append_nil]
      exact hsame.request hquiet

/-- A request that is not unobtrusive makes a model due a minute after its next failure, which
was to wait for longer. -/
theorem not_sameDue_of_not_unobtrusive (hsame : SameSchedules cache cache') {call : CacheCall}
    (hcall : ¬ Unobtrusive cache call) :
    call.isProbe = false ∧ ∃ later, later.isProbe = true ∧
      ¬ SameDue ((cache.call call).call later) (cache'.call later) := by
  cases call with
  | probe providerKey modelId result now probeVersion => exact absurd trivial hcall
  | request providerKey modelId sample now =>
    simp only [Unobtrusive, not_forall] at hcall
    obtain ⟨hmeasured, entry, hentry, hstreak⟩ := hcall
    refine ⟨rfl, failedProbe providerKey modelId, rfl, fun hdue => ?_⟩
    have hask := hdue providerKey [modelId] minuteLater
    -- the entry without the request has its streak
    have hother : (cache'.entryOf providerKey modelId).map ProbeEntry.schedule
        = some entry.schedule := by
      rw [← hsame providerKey modelId, hentry]
      rfl
    have hwith : (cache.call (.request providerKey modelId sample now)).entryOf providerKey modelId
        = some (entry.withRequest sample now) := by
      change (recordRequestSample cache providerKey modelId sample now).entryOf _ _ = _
      rw [recordRequestSample, if_pos hmeasured, hentry]
      rw [ProbeCacheData.entryOf_setEntry, if_pos ⟨rfl, rfl⟩]
    have hprobed : ∀ c : ProbeCacheData,
        (c.call (failedProbe providerKey modelId)).entryOf providerKey modelId
          = some (probedEntry (c.entryOf providerKey modelId) modelId ⟨"500", 0, []⟩ 0
              CURRENT_PROBE_VERSION) := by
      intro c
      change (recordProbeResult c _ _ _ _ _).1.entryOf _ _ = _
      rw [recordProbeResult, ProbeCacheData.entryOf_setEntry, if_pos ⟨rfl, rfl⟩]
    have hfail : ¬ ("500" : String) = "200" := by decide
    have hleft := isDue_minuteLater_iff modelId
      ((schedule_probedEntry (some (entry.withRequest sample now)) modelId ⟨"500", 0, []⟩ 0
        CURRENT_PROBE_VERSION).trans (by
          rw [if_neg hfail, Option.map_some, schedule_withRequest]))
    have hright := isDue_minuteLater_iff modelId
      ((schedule_probedEntry (cache'.entryOf providerKey modelId) modelId ⟨"500", 0, []⟩ 0
        CURRENT_PROBE_VERSION).trans (by
          rw [if_neg hfail, hother]))
    simp only [getModelsDueForProbe, hprobed, hwith, List.filter_cons] at hask
    rw [if_pos (hleft.mpr (Nat.min_le_right _ _)), if_neg] at hask
    · cases hask
    · intro hdue
      have hlong : min MAX_SAMPLES (brokenStreak (entry.samples.getD []) + 1) ≤ 1 :=
        hright.mp hdue
      unfold MAX_SAMPLES at hlong
      omega

/-- **Requests leave the schedule of a run alone**, whatever is probed after any part of it,
exactly where every request came upon a window that is empty or ends with a sample of code 200,
or was not measured, or was to a model that was not probed. -/
theorem probe_schedule_kept_iff (cache : ProbeCacheData) (calls : List CacheCall) :
    (∀ pre later, pre <+: calls → (∀ call ∈ later, call.isProbe = true) →
        SameDue (cache.run (pre ++ later))
          (cache.run ((pre ++ later).filter CacheCall.isProbe))) ↔
      ∀ pre call, pre ++ [call] <+: calls → Unobtrusive (cache.run pre) call := by
  constructor
  · intro h
    refine forall_step_of_earlier fun pre call hpre hearlier => ?_
    by_contra hcall
    obtain ⟨hrequest, later, hlater, hdiffer⟩ :=
      not_sameDue_of_not_unobtrusive (sameSchedules_run hearlier) hcall
    refine hdiffer ?_
    have hdue := h (pre ++ [call]) [later] hpre fun other hother => by
      rw [List.mem_singleton.mp hother]
      exact hlater
    rw [List.filter_append, List.filter_append, List.filter_singleton, hrequest, cond_false,
      List.append_nil, List.filter_singleton, hlater, cond_true] at hdue
    rw [run_snoc, run_snoc, run_snoc] at hdue
    exact hdue
  · intro h pre later hpre hlater
    have hsame : SameSchedules (cache.run pre) (cache.run (pre.filter CacheCall.isProbe)) :=
      sameSchedules_run fun before call hbefore => h before call (hbefore.trans hpre)
    rw [List.filter_append, List.filter_eq_self.mpr hlater, run_append, run_append]
    exact (hsame.run_probes hlater).sameDue

end Runs

/-- Two failed probes of a model with a request served in between. -/
def servedBetweenFailures : List CacheCall :=
  [failedProbe "openrouter" "glm", .request "openrouter" "glm" ⟨900, none⟩ 1,
    failedProbe "openrouter" "glm"]

/-- The request halves the delay: without it the model is not due a minute later. -/
theorem request_changes_probe_schedule :
    (getModelsDueForProbe (emptyCache.run servedBetweenFailures) "openrouter" ["glm"] minuteLater
        = ["glm"] ∧
      getModelsDueForProbe (emptyCache.run (servedBetweenFailures.filter CacheCall.isProbe))
        "openrouter" ["glm"] minuteLater = []) ∧
      ¬ ∀ calls, SameDue (emptyCache.run calls) (emptyCache.run (calls.filter CacheCall.isProbe)) := by
  have hwith : getModelsDueForProbe (emptyCache.run servedBetweenFailures) "openrouter" ["glm"]
      minuteLater = ["glm"] := by decide +kernel
  have hwithout : getModelsDueForProbe
      (emptyCache.run (servedBetweenFailures.filter CacheCall.isProbe)) "openrouter" ["glm"]
      minuteLater = [] := by decide +kernel
  refine ⟨⟨hwith, hwithout⟩, fun h => ?_⟩
  have hsame := h servedBetweenFailures "openrouter" ["glm"] minuteLater
  rw [hwith, hwithout] at hsame
  cases hsame

end LlmRelay.Ping
