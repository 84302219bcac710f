import LlmRelay.Breaker.Cells
import LlmRelay.Breaker.QuotaLatest
import LlmRelay.Ecma.Strings

/-!
# Persistence of the cells

The rows of a breaker as a JSON file, the check a row has to pass when it is loaded, and
the restore (`breaker-persistence.ts`). A row whose numbers are finite, whose times are
not negative and whose names are not empty comes back as it was written.

## Main definitions

* `BreakerCellRow.toJson`, `saveBreakerState`: the values the file holds;
* `isBreakerCellRow`, `loadBreakerState`: the check, and the rows that pass;
* `CircuitState.Storable`: a cell whose row passes the check;
* `storableConditions`: the operations that lead to storable cells.

## Main results

* `loadRow_toJson`: the row of a storable cell comes back;
* `cells_survive_restart`: so do all cells of a run whose operations carry finite numbers.
-/

namespace LlmRelay

open Ecma Transition

/-! ## Names -/

/-- The name of a provider kind. -/
def ProviderKind.name : ProviderKind → String
  | anthropic => "anthropic"
  | openai => "openai"

/-- The names of the cooldown sources, `COOLDOWN_SOURCES`. -/
def CooldownSource.name : CooldownSource → String
  | default => "default"
  | escalation => "escalation"
  | retryAfter => "retry-after"
  | loopback => "loopback"
  | quota => "quota"
  | elapsed => "elapsed"
  | failureEscalation => "failure-escalation"

/-- The name of a sample's source. -/
def PingSource.name : PingSource → String
  | probe => "probe"
  | request => "request"

/-- The name of a quota axis, `QUOTA_AXES`. -/
def QuotaAxis.name : QuotaAxis → String
  | requests => "requests"
  | tokens => "tokens"

/-- The name of a quota period, `QUOTA_PERIODS`. -/
def QuotaPeriod.name : QuotaPeriod → String
  | minute => "minute"
  | day => "day"
  | month => "month"
  | unknown => "unknown"

/-- The member of a closed vocabulary that a string names. -/
def ofName? {α : Type} (name : α → String) (members : List α) (v : Option Json) : Option α :=
  (Json.string? v).bind fun s => members.find? fun a => text (name a) = s

def ProviderKind.ofName? : Option Json → Option ProviderKind :=
  LlmRelay.ofName? name [anthropic, openai]

def CooldownSource.ofName? : Option Json → Option CooldownSource :=
  LlmRelay.ofName? name
    [default, escalation, retryAfter, loopback, quota, elapsed, failureEscalation]

def PingSource.ofName? : Option Json → Option PingSource :=
  LlmRelay.ofName? name [probe, request]

def QuotaAxis.ofName? : Option Json → Option QuotaAxis :=
  LlmRelay.ofName? name [requests, tokens]

def QuotaPeriod.ofName? : Option Json → Option QuotaPeriod :=
  LlmRelay.ofName? name [minute, day, month, unknown]

/-! ## Writing -/

def PingRecord.toJson (ping : PingRecord) : Json :=
  .ofProperties [("ms", some (.ofNumber ping.ms)), ("code", some (Json.ofString ping.code)),
    ("timestamp", some (.ofNumber ping.timestamp)), ("tokens", ping.tokens.map .ofNumber),
    ("source", ping.source.map fun source => Json.ofString source.name)]

def QuotaObservation.toJson (o : QuotaObservation) : Json :=
  .ofProperties [("axis", some (Json.ofString o.axis.name)),
    ("period", some (Json.ofString o.period.name)), ("limit", some (.ofNumber o.limit)),
    ("remaining", some (.ofNumber o.remaining)),
    ("resetsAt", some ((o.resetsAt.map Json.ofNumber).getD .null)),
    ("observedAt", some (.ofNumber o.observedAt)),
    ("basis", some (Json.ofString "provider-stated"))]

def BreakerCellRow.toJson (row : BreakerCellRow) : Json :=
  .ofProperties [("provider", some (Json.ofString row.provider)),
    ("model", some ((row.model.map Json.ofString).getD .null)),
    ("kind", some (Json.ofString row.kind.name)),
    ("credentialId", some (Json.ofString row.credentialId)), ("base", row.base.map Json.ofString),
    ("cooldownUntil", some (.ofNumber row.cooldownUntil)),
    ("cooldownSource",
      some ((row.cooldownSource.map fun source => Json.ofString source.name).getD .null)),
    ("unexplained429s", some (.ofNat row.unexplained429s)),
    ("lastStatus", row.lastStatus.map .ofNat),
    ("consecutiveFailures", row.consecutiveFailures.map .ofNat),
    ("lastFailureTime", row.lastFailureTime.map .ofNumber),
    ("credentialFailures", row.credentialFailures.map .ofNat),
    ("lastCredentialStatus", row.lastCredentialStatus.map .ofNat),
    ("credentialFaultUntil", row.credentialFaultUntil.map .ofNumber),
    ("pings", row.pings.map fun pings => .arr (pings.map PingRecord.toJson)),
    ("quotaObservations", row.quotaObservations.map fun os => .arr (os.map QuotaObservation.toJson))]

def CURRENT_BREAKER_STATE_VERSION : Nat := 1

/-- The file of some rows. -/
def saveBreakerState (rows : List BreakerCellRow) : Json :=
  .ofProperties [("version", some (.ofNat CURRENT_BREAKER_STATE_VERSION)),
    ("rows", some (.arr (rows.map BreakerCellRow.toJson)))]

/-! ## Checking -/

/-- `typeof v === "number" && Number.isFinite(v)`. -/
def isFiniteNumber (v : Option Json) : Bool :=
  (Json.number? v).any Number.isFinite

/-- A finite number that is not negative. -/
def isTime (v : Option Json) : Bool :=
  (Json.number? v).any fun x => x.isFinite && !x.lt 0

/-- An integer that is not negative. -/
def isCount (v : Option Json) : Bool :=
  (Json.count? v).isSome

/-- A string that is not empty. -/
def isName (v : Option Json) : Bool :=
  (Json.string? v).any (· ≠ [])

/-- `v === undefined`, or the check. -/
def absentOr (check : Option Json → Bool) (v : Option Json) : Bool :=
  v.isNone || check v

/-- `v === null`, or the check. -/
def nullOr (check : Option Json → Bool) (v : Option Json) : Bool :=
  v = some .null || check v

def isValidPingRecord (value : Json) : Bool :=
  isFiniteNumber (value.get? (text "ms"))
    && isName (value.get? (text "code"))
    && isFiniteNumber (value.get? (text "timestamp"))
    && absentOr isFiniteNumber (value.get? (text "tokens"))
    && absentOr (fun v => (PingSource.ofName? v).isSome) (value.get? (text "source"))

def isValidQuotaObservation (value : Json) : Bool :=
  (QuotaAxis.ofName? (value.get? (text "axis"))).isSome
    && (QuotaPeriod.ofName? (value.get? (text "period"))).isSome
    && isFiniteNumber (value.get? (text "limit"))
    && isFiniteNumber (value.get? (text "remaining"))
    && nullOr isFiniteNumber (value.get? (text "resetsAt"))
    && isFiniteNumber (value.get? (text "observedAt"))
    && value.get? (text "basis") = some (Json.ofString "provider-stated")

/-- Every element passes; a value that is not an array does not. -/
def everyElement (check : Json → Bool) (v : Option Json) : Bool :=
  (Json.array? v).any fun items => items.all check

/-- The check of one row, field by field. -/
def isBreakerCellRow (value : Json) : Bool :=
  isName (value.get? (text "provider"))
    && nullOr (fun v => (Json.string? v).isSome) (value.get? (text "model"))
    && isName (value.get? (text "kind"))
    && isName (value.get? (text "credentialId"))
    && absentOr (fun v => (Json.string? v).isSome) (value.get? (text "base"))
    && isFiniteNumber (value.get? (text "cooldownUntil"))
    && nullOr (fun v => (CooldownSource.ofName? v).isSome) (value.get? (text "cooldownSource"))
    && isCount (value.get? (text "unexplained429s"))
    && absentOr (fun v => (Json.number? v).isSome) (value.get? (text "lastStatus"))
    && absentOr isCount (value.get? (text "consecutiveFailures"))
    && absentOr isTime (value.get? (text "lastFailureTime"))
    && absentOr isCount (value.get? (text "credentialFailures"))
    && absentOr (fun v => (Json.number? v).isSome) (value.get? (text "lastCredentialStatus"))
    && absentOr isTime (value.get? (text "credentialFaultUntil"))
    && absentOr (everyElement isValidPingRecord) (value.get? (text "pings"))
    && absentOr (everyElement isValidQuotaObservation) (value.get? (text "quotaObservations"))

/-! ## Reading -/

def PingRecord.ofJson? (value : Json) : Option PingRecord := do
  let ms ← Json.number? (value.get? (text "ms"))
  let code ← Json.string? (value.get? (text "code"))
  let timestamp ← Json.number? (value.get? (text "timestamp"))
  some
    { ms
      code := ofText code
      timestamp
      tokens := Json.number? (value.get? (text "tokens"))
      source := PingSource.ofName? (value.get? (text "source")) }

def QuotaObservation.ofJson? (value : Json) : Option QuotaObservation := do
  let axis ← QuotaAxis.ofName? (value.get? (text "axis"))
  let period ← QuotaPeriod.ofName? (value.get? (text "period"))
  let limit ← Json.number? (value.get? (text "limit"))
  let remaining ← Json.number? (value.get? (text "remaining"))
  let observedAt ← Json.number? (value.get? (text "observedAt"))
  some
    { axis
      period
      limit
      remaining
      resetsAt := Json.number? (value.get? (text "resetsAt"))
      observedAt }

/-- A checked value as a row. A kind and a status are read where some cell can have
them. -/
def BreakerCellRow.ofJson? (value : Json) : Option BreakerCellRow := do
  let provider ← Json.string? (value.get? (text "provider"))
  let kind ← ProviderKind.ofName? (value.get? (text "kind"))
  let credentialId ← Json.string? (value.get? (text "credentialId"))
  let cooldownUntil ← Json.number? (value.get? (text "cooldownUntil"))
  let unexplained429s ← Json.count? (value.get? (text "unexplained429s"))
  some
    { provider := ofText provider
      model := (Json.string? (value.get? (text "model"))).map ofText
      kind
      credentialId := ofText credentialId
      base := (Json.string? (value.get? (text "base"))).map ofText
      cooldownUntil
      cooldownSource := CooldownSource.ofName? (value.get? (text "cooldownSource"))
      unexplained429s
      lastStatus := Json.count? (value.get? (text "lastStatus"))
      consecutiveFailures := Json.count? (value.get? (text "consecutiveFailures"))
      lastFailureTime := Json.number? (value.get? (text "lastFailureTime"))
      credentialFailures := Json.count? (value.get? (text "credentialFailures"))
      lastCredentialStatus := Json.count? (value.get? (text "lastCredentialStatus"))
      credentialFaultUntil := Json.number? (value.get? (text "credentialFaultUntil"))
      pings := (Json.array? (value.get? (text "pings"))).map (·.filterMap PingRecord.ofJson?)
      quotaObservations :=
        (Json.array? (value.get? (text "quotaObservations"))).map
          (·.filterMap QuotaObservation.ofJson?) }

/-- A row that passes the check, as a row. -/
def loadRow (value : Json) : Option BreakerCellRow :=
  if isBreakerCellRow value then BreakerCellRow.ofJson? value else none

/-- The rows of a file that pass; a file of another version has none. -/
def loadBreakerState (parsed : Json) : List BreakerCellRow :=
  if parsed.get? (text "version") ≠ some (.ofNat CURRENT_BREAKER_STATE_VERSION) then []
  else ((Json.array? (parsed.get? (text "rows"))).getD []).filterMap loadRow

/-! ## The row of a storable cell -/

/-- A sample whose numbers are finite and whose code is not empty. -/
structure PingRecord.Storable (ping : PingRecord) : Prop where
  ms : ping.ms.isFinite = true
  code : ping.code ≠ ""
  timestamp : ping.timestamp.isFinite = true
  tokens : ∀ tokens, ping.tokens = some tokens → tokens.isFinite = true

/-- An observation whose numbers are finite. -/
structure QuotaObservation.Storable (o : QuotaObservation) : Prop where
  limit : o.limit.isFinite = true
  remaining : o.remaining.isFinite = true
  resetsAt : ∀ resetsAt, o.resetsAt = some resetsAt → resetsAt.isFinite = true
  observedAt : o.observedAt.isFinite = true

/-- A cell whose names are not empty, whose numbers are finite, and whose times are not
negative. -/
structure CircuitState.Storable (state : CircuitState) : Prop where
  provider : state.target.provider ≠ ""
  credentialId : state.target.credentialId ≠ ""
  cooldownUntil : state.cooldownUntil.isFinite = true
  lastFailureTime : Number.IsTime state.lastFailureTime
  credentialFaultUntil : Number.IsTime state.credentialFaultUntil
  history : state.pings.length ≤ MAX_PING_HISTORY
  pings : ∀ ping ∈ state.pings, ping.Storable
  quotaObservations : ∀ o ∈ state.quotaObservations, o.Storable

section Names

@[simp] theorem ProviderKind.ofName?_name (kind : ProviderKind) :
    ProviderKind.ofName? (some (Json.ofString kind.name)) = some kind := by
  cases kind <;> decide +kernel

@[simp] theorem CooldownSource.ofName?_name (source : CooldownSource) :
    CooldownSource.ofName? (some (Json.ofString source.name)) = some source := by
  cases source <;> decide +kernel

@[simp] theorem PingSource.ofName?_name (source : PingSource) :
    PingSource.ofName? (some (Json.ofString source.name)) = some source := by
  cases source <;> decide +kernel

@[simp] theorem QuotaAxis.ofName?_name (axis : QuotaAxis) :
    QuotaAxis.ofName? (some (Json.ofString axis.name)) = some axis := by
  cases axis <;> decide +kernel

@[simp] theorem QuotaPeriod.ofName?_name (period : QuotaPeriod) :
    QuotaPeriod.ofName? (some (Json.ofString period.name)) = some period := by
  cases period <;> decide +kernel

end Names

/-! ### Fields

What each field of a row is read back as, and that it passes its check. -/

section Fields

@[simp] theorem absentOr_some (check : Option Json → Bool) (v : Json) :
    absentOr check (some v) = check (some v) := rfl

@[simp] theorem everyElement_arr (check : Json → Bool) (items : List Json) :
    everyElement check (some (.arr items)) = items.all check := rfl

@[simp] theorem array?_arr (items : List Json) : Json.array? (some (.arr items)) = some items := rfl

variable {x : Number}

theorem number?_ofNumber (h : x.isFinite = true) : Json.number? (some (.ofNumber x)) = some x := by
  rw [Json.ofNumber_of_isFinite h]
  rfl

theorem isFiniteNumber_ofNumber (h : x.isFinite = true) :
    isFiniteNumber (some (.ofNumber x)) = true := by
  rw [isFiniteNumber, number?_ofNumber h]
  exact h

theorem isTime_ofNumber (h : Number.IsTime x) : isTime (some (.ofNumber x)) = true := by
  rw [isTime, number?_ofNumber h.1]
  simp [h.1, h.2]

@[simp] theorem isCount_ofNat (n : Nat) : isCount (some (.ofNat n)) = true := by
  simp [isCount]

@[simp] theorem string?_ofString (s : String) :
    Json.string? (some (.ofString s)) = some (text s) := rfl

theorem isName_ofString {s : String} (h : s ≠ "") : isName (some (.ofString s)) = true := by
  simp [isName, h]

theorem number?_map {x : Option Number} (h : ∀ y, x = some y → y.isFinite = true) :
    Json.number? (x.map .ofNumber) = x ∧ absentOr isFiniteNumber (x.map .ofNumber) = true := by
  cases x with
  | none => exact ⟨rfl, rfl⟩
  | some y =>
    have hy := h y rfl
    exact ⟨number?_ofNumber hy, isFiniteNumber_ofNumber hy⟩

theorem number?_getD {x : Option Number} (h : ∀ y, x = some y → y.isFinite = true) :
    Json.number? (some ((x.map Json.ofNumber).getD .null)) = x ∧
      nullOr isFiniteNumber (some ((x.map Json.ofNumber).getD .null)) = true := by
  cases x with
  | none => exact ⟨rfl, rfl⟩
  | some y =>
    have hy := h y rfl
    exact ⟨number?_ofNumber hy, by simp [nullOr, isFiniteNumber_ofNumber hy]⟩

/-- An optional count is read back. -/
@[simp] theorem count?_map (n : Option Nat) : Json.count? (n.map .ofNat) = n := by
  cases n with
  | none => rfl
  | some n => exact Json.count?_ofNat n

theorem elements_map {α : Type} {toJson : α → Json} {ofJson? : Json → Option α}
    {check : Json → Bool} {items : List α}
    (h : ∀ a ∈ items, check (toJson a) = true ∧ ofJson? (toJson a) = some a) :
    (items.map toJson).all check = true ∧ (items.map toJson).filterMap ofJson? = items := by
  induction items with
  | nil => exact ⟨rfl, rfl⟩
  | cons a items ih =>
    obtain ⟨hcheck, hread⟩ := h a List.mem_cons_self
    obtain ⟨hall, hitems⟩ := ih fun b hb => h b (List.mem_cons_of_mem a hb)
    constructor
    · rw [List.map_cons, List.all_cons, hcheck, hall]
      rfl
    · rw [List.map_cons, List.filterMap_cons_some hread, hitems]

end Fields

theorem PingSource.ofName?_map (source : Option PingSource) :
    PingSource.ofName? (source.map fun source => Json.ofString source.name) = source ∧
      absentOr (fun v => (PingSource.ofName? v).isSome)
        (source.map fun source => Json.ofString source.name) = true := by
  cases source with
  | none => exact ⟨rfl, rfl⟩
  | some source => simp

theorem PingRecord.ofJson?_toJson {ping : PingRecord} (h : ping.Storable) :
    isValidPingRecord ping.toJson = true ∧ PingRecord.ofJson? ping.toJson = some ping := by
  obtain ⟨htokens, htokensPass⟩ := number?_map h.tokens
  obtain ⟨hsource, hsourcePass⟩ := PingSource.ofName?_map ping.source
  constructor
  · simp [isValidPingRecord, toJson, isFiniteNumber_ofNumber h.ms, isName_ofString h.code,
      isFiniteNumber_ofNumber h.timestamp, htokensPass, hsourcePass]
  · simp [PingRecord.ofJson?, toJson, number?_ofNumber h.ms, number?_ofNumber h.timestamp, htokens,
      hsource]

variable {o : QuotaObservation}

theorem QuotaObservation.ofJson?_toJson (h : o.Storable) :
    isValidQuotaObservation o.toJson = true ∧ QuotaObservation.ofJson? o.toJson = some o := by
  obtain ⟨hresets, hresetsPass⟩ := number?_getD h.resetsAt
  constructor
  · simp [isValidQuotaObservation, toJson, isFiniteNumber_ofNumber h.limit,
      isFiniteNumber_ofNumber h.remaining, isFiniteNumber_ofNumber h.observedAt, hresetsPass]
  · simp [QuotaObservation.ofJson?, toJson, number?_ofNumber h.limit, number?_ofNumber h.remaining,
      number?_ofNumber h.observedAt, hresets]

theorem string?_map (s : Option String) :
    (Json.string? (s.map Json.ofString)).map ofText = s ∧
      absentOr (fun v => (Json.string? v).isSome) (s.map Json.ofString) = true := by
  cases s with
  | none => exact ⟨rfl, rfl⟩
  | some s => simp

theorem string?_getD (s : Option String) :
    (Json.string? (some ((s.map Json.ofString).getD .null))).map ofText = s ∧
      nullOr (fun v => (Json.string? v).isSome) (some ((s.map Json.ofString).getD .null)) = true := by
  cases s with
  | none => exact ⟨rfl, rfl⟩
  | some s => simp [nullOr]

theorem CooldownSource.ofName?_getD (source : Option CooldownSource) :
    CooldownSource.ofName?
        (some ((source.map fun source => Json.ofString source.name).getD .null)) = source ∧
      nullOr (fun v => (CooldownSource.ofName? v).isSome)
        (some ((source.map fun source => Json.ofString source.name).getD .null)) = true := by
  cases source with
  | none => exact ⟨rfl, rfl⟩
  | some source => simp [nullOr]

theorem absentOr_number_map (n : Option Nat) :
    absentOr (fun v => (Json.number? v).isSome) (n.map .ofNat) = true := by
  cases n <;> rfl

theorem ProviderKind.name_ne (kind : ProviderKind) : kind.name ≠ "" := by
  cases kind <;> decide

/-- **The row of a storable cell comes back.** -/
theorem loadRow_toJson {state : CircuitState} (h : state.Storable) :
    loadRow state.row.toJson = some state.row := by
  obtain ⟨hmodel, hmodelPass⟩ := string?_getD state.target.model
  obtain ⟨hbase, hbasePass⟩ := string?_map state.target.base
  obtain ⟨hsource, hsourcePass⟩ := CooldownSource.ofName?_getD state.cooldownSource
  obtain ⟨hpingsPass, hpings⟩ := elements_map fun ping hping =>
    PingRecord.ofJson?_toJson (h.pings ping hping)
  obtain ⟨hquotaPass, hquota⟩ := elements_map fun o ho =>
    QuotaObservation.ofJson?_toJson (h.quotaObservations o ho)
  have hcheck : isBreakerCellRow state.row.toJson = true := by
    simp [isBreakerCellRow, BreakerCellRow.toJson, CircuitState.row, isName_ofString h.provider,
      isName_ofString h.credentialId, isName_ofString state.target.kind.name_ne, hmodelPass,
      hbasePass, isFiniteNumber_ofNumber h.cooldownUntil, hsourcePass, absentOr_number_map,
      isTime_ofNumber h.lastFailureTime, isTime_ofNumber h.credentialFaultUntil, hpingsPass,
      hquotaPass]
  rw [loadRow, if_pos hcheck]
  simp [BreakerCellRow.ofJson?, BreakerCellRow.toJson, CircuitState.row, hmodel, hbase, hsource,
    number?_ofNumber h.cooldownUntil, number?_ofNumber h.lastFailureTime.1,
    number?_ofNumber h.credentialFaultUntil.1, hpings, hquota]

/-! ## Storable runs -/

/-- A target with a provider and a credential id. -/
def ProviderTargetIdentity.Named (target : ProviderTargetIdentity) : Prop :=
  target.provider ≠ "" ∧ target.credentialId ≠ ""

/-- A health outcome of finite numbers, at a time. -/
structure HealthOutcome.Storable (outcome : HealthOutcome) : Prop where
  elapsedMs : outcome.elapsedMs.isFinite = true
  at_ : Number.IsTime outcome.at_
  quotaObservations : ∀ os, outcome.quotaObservations = some os → ∀ o ∈ os, o.Storable
  retryAfterMs : outcome.retryAfterMs ≠ some .nan

/-- A terminal outcome of finite numbers, at a time. -/
structure AttemptOutcome.Storable (outcome : AttemptOutcome) : Prop where
  elapsedMs : outcome.elapsedMs.isFinite = true
  completedAt : Number.IsTime outcome.completedAt
  retryAfterMs : ∀ failure status, outcome.terminal ≠ .failed failure status (some .nan)

/-- Observed headers of finite numbers. -/
structure HeaderObservation.Storable (observation : HeaderObservation) : Prop where
  quotaObservations : ∀ os, observation.quotaObservations = some os → ∀ o ∈ os, o.Storable
  retryAfterMs : observation.retryAfterMs ≠ some .nan

/-- A direct writer of finite numbers; what is restored has been loaded. -/
def DirectWrite.Storable : DirectWrite → Prop
  | recordOutcome target outcome => target.Named ∧ outcome.Storable
  | recordCredentialFault target _ at_ => target.Named ∧ Number.IsTime at_
  | clearCredentialFaults _ => True
  | clearCredentialFaultState _ => True
  | clearCooldownState _ => True
  | recordQuotaCooldown target _ _ => target.Named
  | endRateLimitCooldown _ _ _ => True
  | restoreState rows => ∀ row ∈ rows, ∃ value, loadRow value = some row

/-- The conditions of storable operations. -/
def storableConditions : Conditions where
  target := ProviderTargetIdentity.Named
  observation := HeaderObservation.Storable
  outcome := AttemptOutcome.Storable
  direct := DirectWrite.Storable

theorem mem_of_mem_merge {sets : List (List QuotaObservation)}
    (h : o ∈ mergeQuotaObservations sets) : ∃ os ∈ sets, o ∈ os := by
  have hlast := mem_merge_iff.mp ⟨h, rfl⟩
  exact List.mem_flatten.mp (mem_ofTuple.mp (List.mem_of_getLast? hlast)).1

theorem outcomeCode_ne (ok : Bool) (status : Option Nat) : outcomeCode ok status ≠ "" := by
  cases status with
  | none => cases ok <;> decide
  | some status =>
    unfold outcomeCode
    dsimp only
    split
    · decide
    · exact fun h => Nat.repr_ne_empty h

namespace CircuitState.Storable

variable {state : CircuitState}

theorem fresh {target : ProviderTargetIdentity} (h : target.Named) : (fresh target).Storable where
  provider := h.1
  credentialId := h.2
  cooldownUntil := rfl
  lastFailureTime := Number.isTime_zero
  credentialFaultUntil := Number.isTime_zero
  history := Nat.zero_le _
  pings := fun _ hmem => absurd hmem List.not_mem_nil
  quotaObservations := fun _ hmem => absurd hmem List.not_mem_nil

variable {os : List QuotaObservation}

theorem merge (h : state.Storable) (hos : ∀ o ∈ os, o.Storable) :
    ∀ o ∈ mergeQuotaObservations [state.quotaObservations, os], o.Storable := by
  intro o ho
  obtain ⟨set, hset, hmem⟩ := mem_of_mem_merge ho
  rcases List.mem_cons.mp hset with rfl | hset
  · exact h.quotaObservations o hmem
  · rw [List.mem_singleton.mp hset] at hmem
    exact hos o hmem

theorem recordQuota (h : state.Storable) (hos : ∀ o ∈ os, o.Storable) :
    (state.recordQuota os).Storable where
  provider := h.provider
  credentialId := h.credentialId
  cooldownUntil := h.cooldownUntil
  lastFailureTime := h.lastFailureTime
  credentialFaultUntil := h.credentialFaultUntil
  history := h.history
  pings := h.pings
  quotaObservations := h.merge hos

theorem recordCredentialFault (h : state.Storable) (status : Nat) {now : Number}
    (hnow : Number.IsTime now) : (state.recordCredentialFault status now).Storable where
  provider := h.provider
  credentialId := h.credentialId
  cooldownUntil := h.cooldownUntil
  lastFailureTime := h.lastFailureTime
  credentialFaultUntil := hnow.add 300000
  history := h.history
  pings := h.pings
  quotaObservations := h.quotaObservations

variable {outcome : HealthOutcome}

variable (h : state.Storable)

include h

theorem pushPing (helapsed : outcome.elapsedMs.isFinite = true) (hat : Number.IsTime outcome.at_) :
    (state.pushPing outcome).pings.length ≤ MAX_PING_HISTORY ∧
      ∀ ping ∈ (state.pushPing outcome).pings, ping.Storable := by
  have hlength := h.history
  have hall : ∀ ping ∈ state.pings ++ [{ ms := outcome.elapsedMs
                                         code := outcomeCode outcome.ok outcome.status
                                         timestamp := outcome.at_ }], ping.Storable := by
    intro ping hping
    rcases List.mem_append.mp hping with hold | hnew
    · exact h.pings ping hold
    · rw [List.mem_singleton.mp hnew]
      exact ⟨helapsed, outcomeCode_ne _ _, hat.1, fun _ htokens => by cases htokens⟩
  unfold CircuitState.pushPing
  dsimp only
  split
  · refine ⟨?_, fun ping hping => hall ping (List.mem_of_mem_drop hping)⟩
    simp only [List.length_drop, List.length_append, List.length_singleton]
    omega
  · exact ⟨by omega, hall⟩

/-- **A health outcome keeps a cell storable.** -/
theorem recordHealth [Url] (target : ProviderTargetIdentity)
    (houtcome : outcome.Storable) : (state.recordHealth target outcome).Storable := by
  obtain ⟨htarget, hpings, hquota, hcooldown, hfailure, hfault⟩ := state.recorded target outcome
  obtain ⟨hlength, hsamples⟩ := h.pushPing houtcome.elapsedMs houtcome.at_
  refine ⟨?_, ?_, ?_, ?_, ?_, ?_, ?_, ?_⟩
  · rw [htarget]
    exact h.provider
  · rw [htarget]
    exact h.credentialId
  · rcases hcooldown with hold | hzero | ⟨ms, hnew, hms⟩
    · rw [hold]
      exact h.cooldownUntil
    · rw [hzero]
      rfl
    · rw [hnew]
      exact Number.isFinite_add houtcome.at_.1 (hms houtcome.retryAfterMs)
  · rcases hfailure with hold | hnew
    · rw [hold]
      exact h.lastFailureTime
    · rw [hnew]
      exact houtcome.at_
  · rcases hfault with hold | hzero
    · rw [hold]
      exact h.credentialFaultUntil
    · rw [hzero]
      exact Number.isTime_zero
  · rw [hpings]
    exact hlength
  · rw [hpings]
    exact hsamples
  · rw [hquota]
    unfold quotaAfter
    split
    · exact h.quotaObservations
    · exact h.quotaObservations
    · rename_i os _ hos
      exact h.merge (houtcome.quotaObservations os hos)

theorem clearFault : state.clearFault.Storable where
  provider := h.provider
  credentialId := h.credentialId
  cooldownUntil := h.cooldownUntil
  lastFailureTime := h.lastFailureTime
  credentialFaultUntil := Number.isTime_zero
  history := h.history
  pings := h.pings
  quotaObservations := h.quotaObservations

theorem cooled {until_ : Number} (huntil : until_.isFinite = true)
    (source : Option CooldownSource) (unexplained429s : Nat) :
    CircuitState.Storable
      { state with cooldownUntil := until_, cooldownSource := source, unexplained429s } where
  provider := h.provider
  credentialId := h.credentialId
  cooldownUntil := huntil
  lastFailureTime := h.lastFailureTime
  credentialFaultUntil := h.credentialFaultUntil
  history := h.history
  pings := h.pings
  quotaObservations := h.quotaObservations

end CircuitState.Storable

/-- A storable health outcome, from a storable terminal outcome. -/
theorem HealthOutcome.Of.storable {health : HealthOutcome} {outcome : AttemptOutcome}
    {observation : Option HeaderObservation} (h : health.Of outcome observation)
    (houtcome : outcome.Storable) (hobservation : ∀ o, observation = some o → o.Storable) :
    health.Storable where
  elapsedMs := by
    rw [h.elapsedMs]
    exact houtcome.elapsedMs
  at_ := by
    rw [h.at_]
    exact houtcome.completedAt
  quotaObservations := fun os hos => by
    rw [h.quotaObservations] at hos
    cases hos
  retryAfterMs := fun hnan => by
    rcases h.retryAfterMs _ hnan with ⟨failure, status, hterminal⟩ | ⟨o, ho, hretry⟩
    · exact houtcome.retryAfterMs failure status hterminal
    · exact (hobservation o ho).retryAfterMs hretry

/-! ### Loaded rows -/

section Loaded

variable {v : Option Json} {x : Number} {value : Json}

theorem isFinite_of_isFiniteNumber (hcheck : isFiniteNumber v = true)
    (hread : Json.number? v = some x) : x.isFinite = true := by
  rw [isFiniteNumber, hread] at hcheck
  exact hcheck

theorem isTime_of_check (hcheck : absentOr isTime v = true) :
    Number.IsTime ((Json.number? v).getD 0) := by
  cases v with
  | none => exact Number.isTime_zero
  | some v =>
    rw [absentOr_some, isTime] at hcheck
    cases hread : Json.number? (some v) with
    | none =>
      rw [hread] at hcheck
      cases hcheck
    | some x =>
      rw [hread, Option.any_some, Bool.and_eq_true, Bool.not_eq_true'] at hcheck
      exact hcheck

theorem ofText_ne_empty_of_isName {t : Text} (hcheck : isName v = true)
    (hread : Json.string? v = some t) : ofText t ≠ "" := by
  rw [isName, hread] at hcheck
  exact ofText_ne_empty (of_decide_eq_true hcheck)

theorem isFinite_of_absentOr (hcheck : absentOr isFiniteNumber v = true)
    (hread : Json.number? v = some x) : x.isFinite = true := by
  cases v with
  | none => cases hread
  | some v => exact isFinite_of_isFiniteNumber hcheck hread

theorem isFinite_of_nullOr (hcheck : nullOr isFiniteNumber v = true)
    (hread : Json.number? v = some x) : x.isFinite = true := by
  rw [nullOr, Bool.or_eq_true, decide_eq_true_eq] at hcheck
  rcases hcheck with hnull | hcheck
  · rw [hnull] at hread
    cases hread
  · exact isFinite_of_isFiniteNumber hcheck hread

theorem PingRecord.storable_of_ofJson? {ping : PingRecord}
    (hcheck : isValidPingRecord value = true) (hread : PingRecord.ofJson? value = some ping) :
    ping.Storable := by
  simp only [isValidPingRecord, Bool.and_eq_true] at hcheck
  obtain ⟨⟨⟨⟨hms, hcode⟩, htimestamp⟩, htokens⟩, -⟩ := hcheck
  simp only [PingRecord.ofJson?, Option.bind_eq_bind, Option.bind_eq_some_iff,
    Option.some.injEq] at hread
  obtain ⟨ms, hmsRead, code, hcodeRead, timestamp, htimestampRead, rfl⟩ := hread
  exact ⟨isFinite_of_isFiniteNumber hms hmsRead, ofText_ne_empty_of_isName hcode hcodeRead,
    isFinite_of_isFiniteNumber htimestamp htimestampRead, fun _ => isFinite_of_absentOr htokens⟩

theorem QuotaObservation.storable_of_ofJson? (hcheck : isValidQuotaObservation value = true)
    (hread : QuotaObservation.ofJson? value = some o) : o.Storable := by
  simp only [isValidQuotaObservation, Bool.and_eq_true] at hcheck
  obtain ⟨⟨⟨⟨⟨-, hlimit⟩, hremaining⟩, hresets⟩, hobserved⟩, -⟩ := hcheck
  simp only [QuotaObservation.ofJson?, Option.bind_eq_bind, Option.bind_eq_some_iff,
    Option.some.injEq] at hread
  obtain ⟨axis, -, period, -, limit, hlimitRead, remaining, hremainingRead, observedAt,
    hobservedRead, rfl⟩ := hread
  exact ⟨isFinite_of_isFiniteNumber hlimit hlimitRead,
    isFinite_of_isFiniteNumber hremaining hremainingRead, fun _ => isFinite_of_nullOr hresets,
    isFinite_of_isFiniteNumber hobserved hobservedRead⟩

theorem forall_mem_elements {α : Type} {ofJson? : Json → Option α} {check : Json → Bool}
    {P : α → Prop} (h : ∀ value a, check value = true → ofJson? value = some a → P a)
    (hcheck : absentOr (everyElement check) v = true) :
    ∀ a ∈ ((Json.array? v).map (·.filterMap ofJson?)).getD [], P a := by
  intro a ha
  cases hread : Json.array? v with
  | none =>
    rw [hread] at ha
    cases ha
  | some items =>
    have hall : items.all check = true := by
      cases v with
      | none => cases hread
      | some v =>
        rw [absentOr_some, everyElement, hread] at hcheck
        exact hcheck
    rw [hread, Option.map_some, Option.getD_some, List.mem_filterMap] at ha
    obtain ⟨value, hvalue, hvalueRead⟩ := ha
    exact h value a (List.all_eq_true.mp hall value hvalue) hvalueRead

/-- **A loaded row makes a storable cell.** -/
theorem BreakerCellRow.cell_storable {row : BreakerCellRow} (h : loadRow value = some row) :
    row.cell.Storable := by
  unfold loadRow at h
  split at h
  · rename_i hcheck
    simp only [isBreakerCellRow, Bool.and_eq_true, and_assoc] at hcheck
    obtain ⟨hprovider, -, -, hcredential, -, huntil, -, -, -, -, hfailure, -, -, hfault, hpings,
      hquota⟩ := hcheck
    simp only [BreakerCellRow.ofJson?, Option.bind_eq_bind, Option.bind_eq_some_iff,
      Option.some.injEq] at h
    obtain ⟨provider, hproviderRead, kind, -, credentialId, hcredentialRead, cooldownUntil,
      huntilRead, escalations, -, rfl⟩ := h
    refine ⟨ofText_ne_empty_of_isName hprovider hproviderRead,
      ofText_ne_empty_of_isName hcredential hcredentialRead,
      isFinite_of_isFiniteNumber huntil huntilRead, isTime_of_check hfailure,
      isTime_of_check hfault, ?_, ?_, ?_⟩
    · simp only [cell, List.length_drop]
      omega
    · intro ping hping
      exact forall_mem_elements (fun _ _ => PingRecord.storable_of_ofJson?) hpings ping
        (List.mem_of_mem_drop hping)
    · exact forall_mem_elements (fun _ _ => QuotaObservation.storable_of_ofJson?) hquota
  · cases h

end Loaded

/-! ## Restarts -/

variable {states : CircuitStates}

/-- **Every storable write keeps the cells storable.** -/
theorem Cells.storable_apply [Url] (h : Cells CircuitState.Storable states) {write : CellWrite}
    (hwrite : write.Meets storableConditions) :
    Cells CircuitState.Storable (write.apply states) := by
  cases write with
  | terminal target outcome observation =>
    obtain ⟨htarget, houtcome, hobservation⟩ := hwrite
    refine h.applyTerminalOutcome (.fresh htarget) ?_ ?_ ?_
    · intro os hos state hstate
      obtain ⟨o, ho, hread⟩ := Option.bind_eq_some_iff.mp hos
      exact hstate.recordQuota ((hobservation o ho).quotaObservations os hread)
    · intro status state hstate
      exact hstate.recordCredentialFault status houtcome.completedAt
    · intro health hof state hstate
      exact hstate.recordHealth target (hof.storable houtcome hobservation)
  | reset => exact .empty
  | direct write =>
    cases write with
    | recordOutcome target outcome =>
      exact h.updateCell (.fresh hwrite.1) fun state hstate =>
        ⟨(state.recorded target outcome).target, hstate.recordHealth target hwrite.2⟩
    | recordCredentialFault target status at_ =>
      exact h.updateCell (.fresh hwrite.1) fun state hstate =>
        ⟨rfl, hstate.recordCredentialFault status hwrite.2⟩
    | clearCredentialFaults credentialId =>
      refine h.mapValues fun state hstate => ?_
      split
      · exact ⟨rfl, hstate.clearFault⟩
      · exact ⟨rfl, hstate⟩
    | clearCredentialFaultState selector =>
      refine h.mapValues fun state hstate => ?_
      split
      · exact ⟨rfl, hstate.clearFault⟩
      · exact ⟨rfl, hstate⟩
    | clearCooldownState selector =>
      have hcleared : ∀ state : CircuitState, state.Storable → state.clearCooldown.Storable :=
        fun state hstate => hstate.cooled rfl none 0
      refine h.mapValues fun state hstate => ?_
      dsimp only
      split <;> split
      · exact ⟨rfl, (hcleared state hstate).clearFault⟩
      · exact ⟨rfl, hstate.clearFault⟩
      · exact ⟨rfl, hcleared state hstate⟩
      · exact ⟨rfl, hstate⟩
    | recordQuotaCooldown target until_ at_ =>
      exact h.recordQuotaCooldown (.fresh hwrite)
        (fun huntil state hstate => hstate.cooled huntil (some .quota) state.unexplained429s) at_
    | endRateLimitCooldown credentialId model at_ =>
      exact h.endRateLimitCooldown
        (fun state hstate => ⟨rfl, hstate.cooled rfl none state.unexplained429s⟩)
        credentialId model at_
    | restoreState rows =>
      refine h.restoreState fun row hrow => ?_
      obtain ⟨value, hvalue⟩ := hwrite row hrow
      exact BreakerCellRow.cell_storable hvalue

theorem World.cells_storable [Url] {ops : List Operation}
    (h : ∀ op ∈ ops, op.Meets storableConditions) (b : Ref) :
    Cells CircuitState.Storable ((finalState World.operate World.initial ops).statesOf b) := by
  rw [World.states_eq_writes, applyWrites]
  have hwrites := World.meets_writesOf h b
  generalize writesOf b (history World.operate World.initial ops) = writes at hwrites
  induction writes using List.reverseRecOn with
  | nil => exact .empty
  | append_singleton writes write ih =>
    rw [List.foldl_append]
    have hbefore := ih fun write' hwrite' => hwrites write' (List.mem_append_left _ hwrite')
    exact hbefore.storable_apply (hwrites write (by simp))

theorem CircuitState.Storable.cell_row {state : CircuitState} (h : state.Storable) :
    state.row.cell = state := by
  have hpings : state.pings.drop (state.pings.length - MAX_PING_HISTORY) = state.pings := by
    rw [Nat.sub_eq_zero_of_le h.history, List.drop_zero]
  unfold CircuitState.row BreakerCellRow.cell BreakerCellRow.target
  simp only [Option.getD_some, hpings]

theorem restoreState_rows {entries : List (String × CircuitState)}
    (hnodup : (entries.map Prod.fst).Nodup)
    (h : ∀ e ∈ entries, e.1 = getKey e.2.target ∧ e.2.Storable) :
    (restoreState .empty (entries.map fun e => e.2.row)).entries = entries := by
  induction entries using List.reverseRecOn with
  | nil => rfl
  | append_singleton entries e ih =>
    rw [List.map_append, List.nodup_append] at hnodup
    have hbefore := ih hnodup.1 fun e' he' => h e' (List.mem_append_left _ he')
    obtain ⟨hkey, hstorable⟩ := h e (by simp)
    rw [List.map_append, restoreState, List.foldl_append]
    change (restoreRow (restoreState .empty (entries.map fun e => e.2.row)) e.2.row).entries = _
    -- the key of the row is new, so its cell is created, behind the others
    have hnew : (restoreState .empty (entries.map fun e => e.2.row)).get? e.1 = none := by
      rw [OrderedMap.get?, hbefore, lookupEntry_eq_none_iff]
      intro hmem
      exact hnodup.2.2 _ hmem _ (List.mem_singleton_self _) rfl
    have hrow : getKey e.2.row.target = e.1 := hkey.symm
    rw [restoreRow, hrow, OrderedMap.has, hnew]
    rw [Option.isSome_none, if_neg Bool.false_ne_true, OrderedMap.entries_set_of_none _ hnew,
      hbefore, hstorable.cell_row]

/-- **Storable cells come back** from their file. -/
theorem restoreState_loadBreakerState (h : Cells CircuitState.Storable states) :
    restoreState .empty (loadBreakerState (saveBreakerState (exportState states))) = states := by
  have hentries : ∀ e ∈ states.entries, e.1 = getKey e.2.target ∧ e.2.Storable := by
    intro e he
    exact h e.1 e.2 ((OrderedMap.mem_entries_iff states).mp he)
  have hload : loadBreakerState (saveBreakerState (exportState states)) = exportState states := by
    have hrows : ∀ rows : List CircuitState, (∀ state ∈ rows, state.Storable) →
        ((rows.map CircuitState.row).map BreakerCellRow.toJson).filterMap loadRow
          = rows.map CircuitState.row := by
      intro rows hrows
      induction rows with
      | nil => rfl
      | cons state rows ih =>
        rw [List.map_cons, List.map_cons,
          List.filterMap_cons_some (loadRow_toJson (hrows state List.mem_cons_self)),
          ih fun state' hstate' => hrows state' (List.mem_cons_of_mem state hstate')]
    unfold loadBreakerState saveBreakerState
    simp only [Json.get?_ofProperties_cons]
    refine hrows states.values fun state hstate => ?_
    obtain ⟨e, he, rfl⟩ := List.mem_map.mp hstate
    exact (hentries e he).2
  rw [hload]
  apply OrderedMap.ext
  have hexport : exportState states = states.entries.map fun e => e.2.row := by
    rw [exportState, OrderedMap.values, List.map_map]
    rfl
  rw [hexport]
  exact restoreState_rows states.nodup hentries

/-- **The cells survive a restart.** After operations that carry names that are not
empty, finite numbers and times, the cells restored from the file of a breaker are its
cells. So a restarted breaker and the one that was never restarted have the same cells as
long as the same is written to both; and no restore changes a cell that exists. -/
theorem cells_survive_restart [Url] (ops : List Operation)
    (h : ∀ op ∈ ops, op.Meets storableConditions) (b : Ref) :
    let states := (finalState World.operate World.initial ops).statesOf b
    let rows := loadBreakerState (saveBreakerState (exportState states))
    restoreState .empty rows = states ∧
      (∀ later restarted b' writes,
        writesOf b (history World.operate World.initial (ops ++ later))
          = writesOf b (history World.operate World.initial ops) ++ writes →
        writesOf b' (history World.operate World.initial restarted)
          = .direct (.restoreState rows) :: writes →
        (finalState World.operate World.initial restarted).statesOf b'
          = (finalState World.operate World.initial (ops ++ later)).statesOf b) ∧
      ∀ (live : CircuitStates) loaded key cell, live.get? key = some cell →
        (restoreState live loaded).get? key = some cell := by
  intro states rows
  have hrestored : restoreState .empty rows = states :=
    restoreState_loadBreakerState (World.cells_storable h b)
  refine ⟨hrestored, ?_, ?_⟩
  · intro later restarted b' writes hlater hrestarted
    rw [World.states_eq_writes, World.states_eq_writes, hlater, hrestarted, applyWrites_append,
      ← World.states_eq_writes]
    change applyWrites (restoreState .empty rows) writes = _
    rw [hrestored]
  · intro live loaded key cell hcell
    induction loaded generalizing live with
    | nil => exact hcell
    | cons row loaded ih =>
      refine ih _ ?_
      unfold restoreRow OrderedMap.has
      dsimp only
      split
      · exact hcell
      · rename_i hmissing
        rw [OrderedMap.get?_set_of_ne _ _ ?_]
        · exact hcell
        · rintro rfl
          rw [hcell] at hmissing
          exact hmissing rfl

/-- An attempt that succeeds, with an observation whose allowance resets at `resetsAt`, and
a fault. -/
def sampleOperations (resetsAt : Number) : List Operation :=
  [.lifecycle .construct, .lifecycle (.beginAttempt 0 sampleTarget ⟨some 0, none⟩ 0),
    .lifecycle (.observeHeaders 0 (.object 2)
      { sampleHeaders 1 with
        quotaObservations := some [⟨.requests, .minute, 10, 0, some resetsAt, 1⟩] }),
    .lifecycle (.completeAttempt 0 (.object 2) (sampleSuccess 3)),
    .direct 0 (.recordCredentialFault sampleTarget 401 4)]

/-- The cells of the example run survive a restart. -/
theorem sample_cells_survive_restart :
    let states :=
      (finalState (@World.operate noUrl) World.initial (sampleOperations 60000)).statesOf 0
    restoreState .empty (loadBreakerState (saveBreakerState (exportState states))) = states := by
  refine (@cells_survive_restart noUrl (sampleOperations 60000) ?_ 0).1
  have hnamed : sampleTarget.Named := ⟨by decide, by decide⟩
  simp only [sampleOperations, List.forall_mem_cons]
  refine ⟨trivial, hnamed, ⟨?_, by decide⟩, ⟨rfl, ⟨rfl, by decide⟩, ?_⟩, ⟨hnamed, rfl, by decide⟩,
    List.forall_mem_nil _⟩
  · rintro os hos o ho
    cases hos
    rw [List.mem_singleton.mp ho]
    exact ⟨rfl, rfl, fun _ hresets => (by cases hresets; rfl), rfl⟩
  · intro failure status
    exact AttemptTerminal.noConfusion

/-- A reset time that is not finite is lost: a `Retry-After` of more than three hundred
digits leads to one, and the file has no number for it. -/
theorem infinite_reset_is_lost :
    let states :=
      (finalState (@World.operate noUrl) World.initial (sampleOperations .posInf)).statesOf 0
    let restored :=
      restoreState .empty (loadBreakerState (saveBreakerState (exportState states)))
    let resets (states : CircuitStates) :=
      (quotaOf states (getKey sampleTarget)).map QuotaObservation.resetsAt
    resets states = [some .posInf] ∧ resets restored = [none] ∧ restored ≠ states := by
  decide +kernel

end LlmRelay
