import LlmRelay.Ecma.Text
import LlmRelay.Pacing.Resolve
import Mathlib.Data.Rat.Floor
import Mathlib.Tactic.NormNum
import Mathlib.Tactic.Ring

/-!
# Declared limits

Rate limits an operator declares for a provider, a credential or one of their models, and the
windows they are counted in (`configured-limits.ts`, `availability.ts`).

## Main definitions

* `ProviderRateLimits`, `ProviderLimitsConfig`: one declaration, and that of a provider;
* `resolveConfiguredLimits`: for each axis the figure of the most specific declaration;
* `periodEnd`: the instant at which a window ends.

## Main results

* `minuteEnd_le_dayEnd`: the minute of a date ends no later than its day.
-/

namespace LlmRelay

open Ecma

/-! ## Declarations -/

/-- A figure for some of the axes. -/
abbrev AxisFigures :=
  ConfiguredLimitAxis → Option Number

/-- The limits of one declaration; `hard` are those that refuse. -/
structure ProviderRateLimits where
  axes : AxisFigures
  hard : Option AxisFigures

/-- The limits of a provider or a credential, and those of its models. -/
structure ProviderLimitsConfig extends ProviderRateLimits where
  models : Option (OrderedMap Text ProviderRateLimits)

/-- The part of a credential slot that limits are read from. -/
structure LimitedCredential where
  label : Text
  limits : Option ProviderLimitsConfig

/-- The part of a provider that limits are read from. -/
structure LimitedProvider where
  limits : Option ProviderLimitsConfig
  credentials : Option (List LimitedCredential)

/-- The part of the configuration that limits are read from; `hardCaps` is the switch of
`routing.quota`. -/
structure LimitsConfig where
  providers : OrderedMap Text LimitedProvider
  hardCaps : Option Bool

/-- Where a figure was found. -/
inductive ConfiguredLimitSource where
  | provider | credential | providerModel | credentialModel
  deriving DecidableEq, Repr

/-- The figures that hold for a target, with their sources. -/
structure ConfiguredLimits where
  axes : AxisFigures
  source : ConfiguredLimitAxis → Option ConfiguredLimitSource
  hard : Option AxisFigures
  hardSource : Option (ConfiguredLimitAxis → Option ConfiguredLimitSource)

/-- The declarations about a target, the most specific first. -/
def limitLadder (credentialLimits providerLimits : Option ProviderLimitsConfig)
    (model : Option Text) : List (ConfiguredLimitSource × Option ProviderRateLimits) :=
  let ofModel := fun limits : Option ProviderLimitsConfig =>
    model.bind fun model => (limits.bind (·.models)).bind fun models => models.get? model
  [ (.credentialModel, ofModel credentialLimits),
    (.providerModel, ofModel providerLimits),
    (.credential, credentialLimits.map (·.toProviderRateLimits)),
    (.provider, providerLimits.map (·.toProviderRateLimits)) ]

/-- The first figure on a ladder. -/
def firstDeclared (ladder : List (ConfiguredLimitSource × Option ProviderRateLimits))
    (read : ProviderRateLimits → Option Number) : Option (Number × ConfiguredLimitSource) :=
  ladder.findSome? fun entry => (entry.2.bind read).map fun figure => (figure, entry.1)

/-- The limits declared for a target; each axis is resolved by itself, the soft figure and the
hard one apart. -/
def resolveConfiguredLimits (cfg : LimitsConfig) (provider : Text)
    (credentialLabel model : Option Text) : Option ConfiguredLimits :=
  let p := cfg.providers.get? provider
  let providerLimits := p.bind (·.limits)
  let credentialLimits := credentialLabel.bind fun label =>
    (p.bind (·.credentials)).bind fun credentials =>
      (credentials.find? fun c => c.label = label).bind (·.limits)
  if providerLimits.isNone && credentialLimits.isNone then none
  else
    let ladder := limitLadder credentialLimits providerLimits model
    let soft := fun axis => firstDeclared ladder fun limits => limits.axes axis
    let hard := fun axis => firstDeclared ladder fun limits => limits.hard.bind fun hard => hard axis
    let hardDeclared := CONFIGURED_LIMIT_AXES.any fun axis => (hard axis).isSome
    if CONFIGURED_LIMIT_AXES.all (fun axis => (soft axis).isNone) && !hardDeclared then none
    else some
      { axes := fun axis => (soft axis).map Prod.fst
        source := fun axis => (soft axis).map Prod.snd
        hard := if hardDeclared then some fun axis => (hard axis).map Prod.fst else none
        hardSource := if hardDeclared then some fun axis => (hard axis).map Prod.snd else none }

/-! ## Windows -/

/-- The first instant after the current period; `none` where it is not known. -/
def periodEnd (now : Number) (period : QuotaPeriod) : Option Number :=
  (periodStart now period).bind fun start =>
    match period with
    | .minute => some (start.add (.fin msPerMinute))
    | .day => some (start.add (.fin msPerDay))
    -- the first of a month and 31 days is a day of the next month
    | .month => some (((timeClip start).bind fun t =>
      timeClip (.fin (startOfMonth (t + 31 * msPerDay)))).elim .nan fun t => .fin t)
    | .unknown => none

/-- The end of the minute of a date. -/
def minuteEnd (q : ℚ) : ℤ :=
  startOfMinute q + msPerMinute

/-- The end of the UTC day of a date. -/
def dayEnd (t : ℤ) : ℤ :=
  startOfDay t + msPerDay

theorem periodEnd_minute (q : ℚ) : periodEnd (.fin q) .minute = some (.fin (minuteEnd q)) := by
  simp [periodEnd, periodStart, minuteEnd]

theorem periodEnd_day {q : ℚ} {t : ℤ} (h : timeClip (.fin q) = some t) :
    periodEnd (.fin q) .day = some (.fin (dayEnd t)) := by
  simp [periodEnd, periodStart, dayEnd, h]

theorem lt_truncate_add_one (q : ℚ) : q < truncate q + 1 := by
  unfold truncate
  split
  · rename_i hneg
    have hfloor := Int.floor_le (-q)
    have hle : ((-q).floor : ℚ) ≤ -q := hfloor
    push_cast
    linarith
  · exact Int.lt_floor_add_one q

/-- **The minute of a date ends no later than its day.** -/
theorem minuteEnd_le_dayEnd {q : ℚ} {t : ℤ} (h : timeClip (.fin q) = some t) :
    minuteEnd q ≤ dayEnd t := by
  have ht : truncate q = t := by
    unfold timeClip at h
    dsimp only at h
    split at h
    · exact Option.some.inj h
    · cases h
  -- the day ends at a whole minute, after the date
  have hday : t + 1 ≤ (t / msPerDay + 1) * msPerDay := by
    have := Int.lt_mul_ediv_self_add (x := t) (k := msPerDay) (by decide)
    rw [Int.mul_comm] at this
    rw [Int.add_mul]
    omega
  have hlt : q / (msPerMinute : ℚ) < ((t / msPerDay + 1) * 1440 : ℤ) := by
    rw [div_lt_iff₀ (by norm_num [msPerMinute])]
    have hq := lt_truncate_add_one q
    rw [ht] at hq
    have hcast : ((t + 1 : ℤ) : ℚ) ≤ ((t / msPerDay + 1) * msPerDay : ℤ) := by
      exact_mod_cast hday
    have hminutes : (((t / msPerDay + 1) * 1440 : ℤ) : ℚ) * (msPerMinute : ℚ)
        = ((t / msPerDay + 1) * msPerDay : ℤ) := by
      simp only [msPerMinute, msPerDay]
      push_cast
      ring
    rw [hminutes]
    push_cast at hcast hq ⊢
    linarith
  have hfloor : (q / (msPerMinute : ℚ)).floor < (t / msPerDay + 1) * 1440 := Int.floor_lt.mpr hlt
  unfold minuteEnd dayEnd startOfMinute startOfDay
  simp only [msPerMinute, msPerDay] at hfloor ⊢
  omega

end LlmRelay
