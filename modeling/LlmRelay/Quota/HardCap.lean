import LlmRelay.Quota.ConfiguredLimits

/-!
# Hard caps

An attempt is refused where the use of a window has reached a cap the operator declared
(`hard-cap.ts`). Of several caps that are reached the verdict names one, together with the end
of its window.

## Main definitions

* `HardCapInput`, `reachedCap`: what is read, and whether the cap of an axis is reached;
* `evaluateHardCap`: the verdict;
* `LiftsFirst`: the verdict's window ends first.

## Main results

* `evaluateHardCap_eq`: the verdict is about the first reached cap in the order of the buckets;
* `hard_cap_lifts_first_iff`: when its window is the one that ends first.
-/

namespace LlmRelay

open Ecma

/-- Whose use a cap is compared with. -/
inductive HardCapScope where
  | credential | deployment
  deriving DecidableEq, Repr

/-- What an attempt's caps are evaluated from; `usedInWindow` reads the ledger, where it has a
figure. -/
structure HardCapInput where
  cfg : LimitsConfig
  provider : Text
  credentialLabel : Option Text
  model : Option Text
  usedInWindow : QuotaAxis → QuotaPeriod → HardCapScope → Option Number
  now : Number

/-- A cap that is reached. -/
structure ReachedCap where
  axis : QuotaAxis
  period : QuotaPeriod
  cap : Number
  used : Number
  source : ConfiguredLimitSource
  scope : HardCapScope

structure HardCapVerdict extends ReachedCap where
  resetsAt : Number

def scopeOfSource : ConfiguredLimitSource → HardCapScope
  | .credentialModel | .providerModel => .deployment
  | .credential | .provider => .credential

variable (input : HardCapInput)

/-- The limits that are declared for the attempt; none where the caps are switched off. -/
def hardLimits : Option ConfiguredLimits :=
  if input.cfg.hardCaps = some false then none
  else resolveConfiguredLimits input.cfg input.provider input.credentialLabel input.model

/-- The cap of an axis, where it is reached. -/
def reachedCap (axis : ConfiguredLimitAxis) : Option ReachedCap := do
  let configured ← hardLimits input
  let cap ← configured.hard.bind fun hard => hard axis
  let shape := configuredLimitQuotaShape axis
  let source := (configured.hardSource.bind fun source => source axis).getD .credential
  let scope := scopeOfSource source
  -- an unknown use refuses nothing
  let used ← input.usedInWindow shape.1 shape.2 scope
  if cap.le used then
    some { axis := shape.1, period := shape.2, cap, used, source, scope }
  else none

/-- The caps that are reached. -/
def reachedCaps : List ReachedCap :=
  CONFIGURED_LIMIT_AXES.filterMap (reachedCap input)

/-- The verdict on an attempt; absent where no cap is reached. -/
def evaluateHardCap : Option HardCapVerdict :=
  ((reachedCaps input).insertionSort fun a b =>
      bucketRank a.axis a.period ≤ bucketRank b.axis b.period).head?.bind fun first =>
    (periodEnd input.now first.period).map fun resetsAt => { first with resetsAt }

/-! ## The reached cap that is named -/

variable {input}

variable {cap : ReachedCap}

theorem shape_of_reachedCap {axis : ConfiguredLimitAxis} (h : reachedCap input axis = some cap) :
    (cap.axis, cap.period) = configuredLimitQuotaShape axis := by
  unfold reachedCap at h
  simp only [bind, Option.bind_eq_some_iff] at h
  obtain ⟨configured, -, figure, -, used, -, h⟩ := h
  split at h
  · cases h
    rfl
  · cases h

theorem reachedCaps_sorted (input : HardCapInput) :
    (reachedCaps input).Pairwise fun a b =>
      bucketRank a.axis a.period ≤ bucketRank b.axis b.period := by
  refine List.pairwise_filterMap.mpr ?_
  have haxes : CONFIGURED_LIMIT_AXES.Pairwise fun axis axis' =>
      bucketRank (configuredLimitQuotaShape axis).1 (configuredLimitQuotaShape axis).2
        ≤ bucketRank (configuredLimitQuotaShape axis').1 (configuredLimitQuotaShape axis').2 := by
    decide
  refine haxes.imp fun {axis axis'} hle a ha b hb => ?_
  have hshape := shape_of_reachedCap ha
  have hshape' := shape_of_reachedCap hb
  rw [← hshape, ← hshape'] at hle
  exact hle

/-- **The verdict** is about the first cap that is reached, and the end of its window. -/
theorem evaluateHardCap_eq (input : HardCapInput) :
    evaluateHardCap input = (reachedCaps input).head?.bind fun first =>
      (periodEnd input.now first.period).map fun resetsAt => { first with resetsAt } := by
  rw [evaluateHardCap, (reachedCaps_sorted input).insertionSort_eq]

/-! ## When its window ends first -/

/-- The verdict's window is that of a cap that is reached, and none of these ends earlier. -/
def LiftsFirst (input : HardCapInput) : Prop :=
  ∃ verdict, evaluateHardCap input = some verdict ∧
    (∃ cap ∈ reachedCaps input, periodEnd input.now cap.period = some verdict.resetsAt) ∧
    ∀ cap ∈ reachedCaps input, ∃ ends, periodEnd input.now cap.period = some ends ∧
      verdict.resetsAt.le ends = true

theorem period_of_mem_reachedCaps (h : cap ∈ reachedCaps input) :
    cap.period = .minute ∨ cap.period = .day := by
  obtain ⟨axis, -, hcap⟩ := List.mem_filterMap.mp h
  have hshape := congrArg Prod.snd (shape_of_reachedCap hcap)
  dsimp only at hshape
  rw [hshape]
  cases axis with
  | rpm | tpm => exact .inl rfl
  | rpd | tpd => exact .inr rfl

/-- The end of the minute, or of the day, of a date. -/
def windowEnd (q : ℚ) (t : ℤ) : QuotaPeriod → ℤ
  | .minute => minuteEnd q
  | _ => dayEnd t

variable {q : ℚ} {t : ℤ}

theorem periodEnd_of_mem_reachedCaps (hnow : input.now = .fin q)
    (hdate : timeClip (.fin q) = some t) (h : cap ∈ reachedCaps input) :
    periodEnd input.now cap.period = some (.fin (windowEnd q t cap.period)) := by
  rw [hnow]
  rcases period_of_mem_reachedCaps h with hminute | hday
  · rw [hminute, periodEnd_minute, windowEnd]
  · rw [hday, periodEnd_day hdate]
    rfl

theorem liftsFirst_iff (hnow : input.now = .fin q) (hdate : timeClip (.fin q) = some t)
    {first : ReachedCap} (hfirst : (reachedCaps input).head? = some first) :
    LiftsFirst input ↔
      ∀ cap ∈ reachedCaps input, windowEnd q t first.period ≤ windowEnd q t cap.period := by
  have hmem : first ∈ reachedCaps input := List.mem_of_head? hfirst
  have hends := fun {cap} (h : cap ∈ reachedCaps input) =>
    periodEnd_of_mem_reachedCaps hnow hdate h
  have hverdict : evaluateHardCap input
      = some { first with resetsAt := .fin (windowEnd q t first.period) } := by
    rw [evaluateHardCap_eq, hfirst, Option.bind_some, hends hmem, Option.map_some]
  constructor
  · rintro ⟨verdict, hsome, -, hle⟩ cap hcap
    rw [hverdict] at hsome
    cases hsome
    obtain ⟨ends, hend, hle⟩ := hle cap hcap
    rw [hends hcap] at hend
    cases hend
    have hle' := of_decide_eq_true hle
    exact_mod_cast hle'
  · intro hle
    refine ⟨_, hverdict, ⟨first, hmem, hends hmem⟩, fun cap hcap => ⟨_, hends hcap, ?_⟩⟩
    refine decide_eq_true ?_
    exact_mod_cast hle cap hcap

theorem minute_le_windowEnd (hdate : timeClip (.fin q) = some t) (period : QuotaPeriod) :
    minuteEnd q ≤ windowEnd q t period := by
  cases period with
  | minute => exact le_rfl
  | day | month | unknown => exact minuteEnd_le_dayEnd hdate

theorem filterMap_cons_eq_append {α β : Type*} (f : α → Option β) (a : α) (l : List α) :
    (a :: l).filterMap f = (f a).toList ++ l.filterMap f := by
  cases h : f a with
  | none => rw [List.filterMap_cons_none h, Option.toList_none, List.nil_append]
  | some b => rw [List.filterMap_cons_some h, Option.toList_some, List.singleton_append]

theorem reachedCaps_eq (input : HardCapInput) :
    reachedCaps input = (reachedCap input .rpm).toList ++ ((reachedCap input .rpd).toList
      ++ ((reachedCap input .tpm).toList ++ (reachedCap input .tpd).toList)) := by
  rw [reachedCaps, CONFIGURED_LIMIT_AXES, filterMap_cons_eq_append, filterMap_cons_eq_append,
    filterMap_cons_eq_append, filterMap_cons_eq_append, List.filterMap_nil, List.append_nil]

/-- **The verdict names the reached cap that lifts first** exactly where the cap on requests a
minute is reached, the cap on requests a day or the one on tokens a minute is not, or the minute
is the last one of the day. -/
theorem hard_cap_lifts_first_iff (input : HardCapInput)
    (hdate : (timeClip input.now).isSome = true) (hreached : reachedCaps input ≠ []) :
    LiftsFirst input ↔
      (reachedCap input .rpm).isSome = true ∨ (reachedCap input .rpd).isNone = true ∨
        (reachedCap input .tpm).isNone = true ∨
        periodEnd input.now .minute = periodEnd input.now .day := by
  obtain ⟨t, ht⟩ := Option.isSome_iff_exists.mp hdate
  obtain ⟨q, hnow⟩ : ∃ q, input.now = .fin q := by
    cases hcase : input.now with
    | fin q => exact ⟨q, rfl⟩
    | nan | negInf | posInf =>
      rw [hcase] at ht
      cases ht
  rw [hnow] at ht
  have hperiod : ∀ {axis cap}, reachedCap input axis = some cap →
      cap.period = (configuredLimitQuotaShape axis).2 := fun h =>
    congrArg Prod.snd (shape_of_reachedCap h)
  have hlist := reachedCaps_eq input
  cases hrpm : reachedCap input .rpm with
  | some first =>
    -- the first cap lifts with the minute
    rw [hrpm, Option.toList_some, List.singleton_append] at hlist
    have hfirst : (reachedCaps input).head? = some first := by rw [hlist, List.head?_cons]
    refine iff_of_true ((liftsFirst_iff hnow ht hfirst).mpr fun cap _ => ?_) (.inl rfl)
    rw [hperiod hrpm]
    exact minute_le_windowEnd ht cap.period
  | none =>
    rw [hrpm, Option.toList_none, List.nil_append] at hlist
    cases hrpd : reachedCap input .rpd with
    | none =>
      rw [hrpd, Option.toList_none, List.nil_append] at hlist
      refine iff_of_true ?_ (.inr (.inl rfl))
      cases htpm : reachedCap input .tpm with
      | some first =>
        rw [htpm, Option.toList_some, List.singleton_append] at hlist
        have hfirst : (reachedCaps input).head? = some first := by rw [hlist, List.head?_cons]
        refine (liftsFirst_iff hnow ht hfirst).mpr fun cap _ => ?_
        rw [hperiod htpm]
        exact minute_le_windowEnd ht cap.period
      | none =>
        -- only one cap is reached
        rw [htpm, Option.toList_none, List.nil_append] at hlist
        cases htpd : reachedCap input .tpd with
        | none => exact absurd (by rw [hlist, htpd, Option.toList_none]) hreached
        | some first =>
          rw [htpd, Option.toList_some] at hlist
          have hfirst : (reachedCaps input).head? = some first := by
            rw [hlist, List.head?_cons]
          refine (liftsFirst_iff hnow ht hfirst).mpr fun cap hcap => ?_
          rw [hlist, List.mem_singleton] at hcap
          rw [hcap]
    | some first =>
      rw [hrpd, Option.toList_some, List.singleton_append] at hlist
      have hfirst : (reachedCaps input).head? = some first := by rw [hlist, List.head?_cons]
      rw [liftsFirst_iff hnow ht hfirst, hperiod hrpd, hlist]
      cases htpm : reachedCap input .tpm with
      | none =>
        -- only caps on a day are reached
        refine iff_of_true (fun cap hcap => ?_) (.inr (.inr (.inl rfl)))
        rw [Option.toList_none, List.nil_append, List.mem_cons, Option.mem_toList] at hcap
        rcases hcap with rfl | htpd
        · rw [hperiod hrpd]
        · rw [hperiod htpd]
          exact le_rfl
      | some other =>
        rw [hnow, periodEnd_minute, periodEnd_day ht]
        constructor
        · intro hle
          have hother := hle other (by simp)
          rw [hperiod htpm] at hother
          have heq : minuteEnd q = dayEnd t :=
            le_antisymm (minuteEnd_le_dayEnd ht) hother
          exact .inr (.inr (.inr (by rw [heq])))
        · rintro (h | h | h | h)
          · cases h
          · cases h
          · cases h
          · intro cap _
            have heq : minuteEnd q = dayEnd t := by
              have hfin := Number.fin.inj (Option.some.inj h)
              exact_mod_cast hfin
            exact heq.symm.le.trans (minute_le_windowEnd ht cap.period)

/-- One provider with caps on the requests of a day and the tokens of a minute. -/
def cappedInput (used : QuotaAxis → QuotaPeriod → HardCapScope → Option Number) :
    HardCapInput where
  cfg :=
    { providers := .set .empty (text "p")
        { limits := some
            { axes := fun _ => none
              hard := some fun axis =>
                if axis = .rpd then some 450 else if axis = .tpm then some 1000 else none
              models := none }
          credentials := none }
      hardCaps := none }
  provider := text "p"
  credentialLabel := none
  model := none
  usedInWindow := used
  now := .fin 1000

theorem hard_cap_lifts_first_tokens :
    LiftsFirst (cappedInput fun axis _ _ => if axis = .tokens then some 1000 else some 3) :=
  (hard_cap_lifts_first_iff _ (by decide +kernel) (by decide +kernel)).mpr (by decide +kernel)

/-- Both caps are reached: the tokens are counted anew after the minute, but the verdict names the
end of the day. -/
theorem hard_cap_lifts_late :
    (reachedCaps (cappedInput fun _ _ _ => some 1000)).map (·.period) = [.day, .minute] ∧
      (evaluateHardCap (cappedInput fun _ _ _ => some 1000)).map (·.resetsAt)
        = some (.fin 86400000) ∧
      periodEnd (.fin 1000) .minute = some (.fin 60000) := by
  decide +kernel

end LlmRelay
