import LlmRelay.Breaker.Ledger

/-!
# The quota observation a cell retains

A cell keeps one quota observation for each axis and period. The merge replaces in
order of completion, so the retained one is the one recorded last; it is the newest
one as long as completions come in order of observation.

## Main definitions

* `Effect.recorded`, `recordedFor`: the observations completions recorded for a cell;
* `Retains`: a cell retains an observation;
* `LatestWins`: what a cell retains is the newest of what was recorded;
* `Effect.Fresh`, `World.Fresh`: a completion records nothing older.

## Main results

* `retains_iff`: a cell retains what was recorded last;
* `quota_latest_wins_iff`: the newest observation is retained throughout a run
  exactly when every completion is fresh.
-/

namespace LlmRelay

open Ecma Transition

/-! ## Merging -/

/-- What an observation is about. -/
abbrev QuotaTuple := QuotaAxis × QuotaPeriod

/-- The tuple of an observation. -/
def QuotaObservation.tuple (o : QuotaObservation) : QuotaTuple :=
  (o.axis, o.period)

/-- The observations of one tuple. -/
def ofTuple (tuple : QuotaTuple) (os : List QuotaObservation) : List QuotaObservation :=
  os.filter fun o => o.tuple = tuple

@[simp] theorem ofTuple_append (tuple : QuotaTuple) (os os' : List QuotaObservation) :
    ofTuple tuple (os ++ os') = ofTuple tuple os ++ ofTuple tuple os' :=
  List.filter_append _ _

theorem mem_ofTuple {tuple : QuotaTuple} {os : List QuotaObservation} {o : QuotaObservation} :
    o ∈ ofTuple tuple os ↔ o ∈ os ∧ o.tuple = tuple := by
  simp [ofTuple]

theorem mem_merge_iff {sets : List (List QuotaObservation)} {tuple : QuotaTuple}
    {o : QuotaObservation} :
    (o ∈ mergeQuotaObservations sets ∧ o.tuple = tuple)
      ↔ (ofTuple tuple sets.flatten).getLast? = some o := by
  have hentries := OrderedMap.mem_entries_foldl_set QuotaObservation.tuple sets.flatten
  have hmerge : mergeQuotaObservations sets
      = (sets.flatten.foldl (fun m o => m.set o.tuple o) OrderedMap.empty).values := rfl
  rw [hmerge, OrderedMap.values, List.mem_map, ofTuple, ← OrderedMap.get?_foldl_set]
  constructor
  · rintro ⟨⟨⟨k, v⟩, hmem, rfl⟩, htuple⟩
    have hk := hentries _ hmem
    rw [← htuple]
    rw [OrderedMap.mem_entries_iff] at hmem
    exact hk ▸ hmem
  · intro hget
    have hmem := (OrderedMap.mem_entries_iff _).mpr hget
    exact ⟨⟨_, hmem, rfl⟩, (hentries _ hmem).symm⟩

/-! ## What an effect records -/

/-- The quota observations of a cell; a cell that does not exist has none. -/
def quotaOf (states : CircuitStates) (key : String) : List QuotaObservation :=
  ((states.get? key).map (·.quotaObservations)).getD []

/-- The quota observations a completion records: those of the headers observed for
the attempt, unless it was cancelled. -/
def Effect.recorded (e : Effect) : List QuotaObservation :=
  match e.outcome.terminal with
  | .cancelled _ _ => []
  | _ => (e.observation.bind (·.quotaObservations)).getD []

/-- The observations of a tuple that completions recorded for a cell, in order. -/
def recordedFor (effects : List Effect) (key : String) (tuple : QuotaTuple) :
    List QuotaObservation :=
  effects.flatMap fun e => if getKey e.target = key then ofTuple tuple e.recorded else []

variable (states : CircuitStates)

theorem quotaOf_updateCell (target : ProviderTargetIdentity)
    (write : CircuitState → CircuitState) (key : String) :
    quotaOf (updateCell states target write) key
      = if getKey target = key then (write (cellOf states target)).quotaObservations
        else quotaOf states key := by
  by_cases h : getKey target = key
  · subst h
    simp [quotaOf]
  · simp [quotaOf, get?_updateCell_of_ne states write h, h]

theorem quotaObservations_cellOf (target : ProviderTargetIdentity) :
    (cellOf states target).quotaObservations = quotaOf states (getKey target) := by
  unfold cellOf quotaOf
  cases states.get? (getKey target) <;> rfl

section Effects

variable [Url]

theorem quotaObservations_recordHealth (state : CircuitState) (target : ProviderTargetIdentity)
    {outcome : HealthOutcome} (h : outcome.quotaObservations = none) :
    (state.recordHealth target outcome).quotaObservations = state.quotaObservations := by
  have hlimited : ∀ c : CircuitState, (c.coolRateLimited target outcome).quotaObservations
      = c.quotaObservations := by
    intro c
    unfold CircuitState.coolRateLimited
    split
    · rfl
    · split <;> rfl
  have hexhausted : ∀ c : CircuitState, (c.coolQuotaExhausted outcome).quotaObservations
      = c.quotaObservations := by
    intro c
    unfold CircuitState.coolQuotaExhausted
    split <;> rfl
  have hfailed : ∀ c : CircuitState, (c.coolFailed outcome).quotaObservations
      = c.quotaObservations := by
    intro c
    unfold CircuitState.coolFailed
    split
    · rfl
    · dsimp only
      split
      · split
        · split <;> rfl
        · rfl
      · rfl
  unfold CircuitState.recordHealth
  rw [h]
  dsimp only
  split
  · rfl
  · split
    · exact hlimited _
    · exact hexhausted _
    · exact hfailed _

theorem quotaOf_applyHealthOutcome (target : ProviderTargetIdentity)
    {outcome : HealthOutcome} (h : outcome.quotaObservations = none) (key : String) :
    quotaOf (applyHealthOutcome states target outcome) key = quotaOf states key := by
  rw [applyHealthOutcome, quotaOf_updateCell]
  split
  · rename_i hkey
    rw [quotaObservations_recordHealth _ _ h, quotaObservations_cellOf, hkey]
  · rfl

omit [Url] in
theorem quotaOf_applyCredentialFault (target : ProviderTargetIdentity)
    (status : Nat) (now : Number) (key : String) :
    quotaOf (applyCredentialFault states target status now) key = quotaOf states key := by
  rw [applyCredentialFault, quotaOf_updateCell]
  split
  · rename_i hkey
    rw [← hkey, ← quotaObservations_cellOf]
    rfl
  · rfl

omit [Url] in
theorem quotaOf_recordQuotaObservations (target : ProviderTargetIdentity)
    (batch : Option (List QuotaObservation)) (key : String) :
    quotaOf (recordQuotaObservations states target batch) key
      = if getKey target = key ∧ batch.getD [] ≠ [] then
          mergeQuotaObservations [quotaOf states key, batch.getD []]
        else quotaOf states key := by
  match batch with
  | none => simp [recordQuotaObservations]
  | some [] => simp [recordQuotaObservations]
  | some (o :: os) =>
    rw [recordQuotaObservations, quotaOf_updateCell]
    by_cases hkey : getKey target = key
    · rw [CircuitState.recordQuota, quotaObservations_cellOf, hkey]
      simp
    · simp [hkey]

/-- **What a completion does to the observations of a cell.** -/
theorem quotaOf_apply (e : Effect) (key : String) :
    quotaOf (e.apply states) key
      = if getKey e.target = key ∧ e.recorded ≠ [] then
          mergeQuotaObservations [quotaOf states key, e.recorded]
        else quotaOf states key := by
  unfold Effect.apply applyTerminalOutcome Effect.recorded
  cases e.outcome.terminal with
  | cancelled cause reason =>
    have hsame : quotaOf (applyCancelledOutcome states e.target e.outcome cause) key
        = quotaOf states key := by
      unfold applyCancelledOutcome
      split_ifs
      · rfl
      · rfl
      · exact quotaOf_applyHealthOutcome states e.target rfl key
    simpa using hsame
  | succeeded status =>
    rw [← quotaOf_recordQuotaObservations]
    split_ifs
    · rfl
    · exact quotaOf_applyHealthOutcome _ e.target rfl key
  | failed failure status retryAfterMs =>
    dsimp only
    rw [← quotaOf_recordQuotaObservations]
    split_ifs
    · rfl
    · exact quotaOf_applyCredentialFault _ e.target _ _ key
    · rfl
    · exact quotaOf_applyHealthOutcome _ e.target rfl key

/-! ## What a cell retains -/

/-- A cell retains an observation of a tuple. -/
def Retains (states : CircuitStates) (key : String) (tuple : QuotaTuple) (o : QuotaObservation) :
    Prop :=
  o ∈ quotaOf states key ∧ o.tuple = tuple

omit [Url] in
@[simp] theorem recordedFor_snoc (effects : List Effect) (e : Effect) (key : String)
    (tuple : QuotaTuple) :
    recordedFor (effects ++ [e]) key tuple
      = recordedFor effects key tuple
        ++ if getKey e.target = key then ofTuple tuple e.recorded else [] := by
  simp [recordedFor]

/-- **A cell retains what was recorded last.** The induction is on the completions. -/
theorem retains_iff (effects : List Effect) (key : String) (tuple : QuotaTuple)
    (o : QuotaObservation) :
    Retains (effects.foldl Effect.apply .empty) key tuple o
      ↔ (recordedFor effects key tuple).getLast? = some o := by
  induction effects using List.reverseRecOn generalizing o with
  | nil => simp [Retains, quotaOf, recordedFor]
  | append_singleton effects e ih =>
    rw [List.foldl_append, List.foldl_cons, List.foldl_nil, Retains, quotaOf_apply,
      recordedFor_snoc]
    by_cases hkey : getKey e.target = key
    · by_cases hempty : e.recorded = []
      · simp only [hempty]
        simpa [ofTuple, Retains] using ih o
      · rw [if_pos ⟨hkey, hempty⟩, if_pos hkey, mem_merge_iff]
        -- the list of the cell has the observation recorded last, and no other
        have hold : (ofTuple tuple (quotaOf (effects.foldl Effect.apply .empty) key)).getLast?
            = (recordedFor effects key tuple).getLast? := by
          cases hlast : (recordedFor effects key tuple).getLast? with
          | none =>
            rw [List.getLast?_eq_none_iff, List.eq_nil_iff_forall_not_mem]
            intro r hr
            have := (ih r).mp (mem_ofTuple.mp hr)
            rw [hlast] at this
            cases this
          | some r =>
            have hr := mem_ofTuple.mpr ((ih r).mpr hlast)
            obtain ⟨r', hr'⟩ := Option.isSome_iff_exists.mp
              (List.getLast?_isSome.mpr (List.ne_nil_of_mem hr))
            have hmem := List.mem_of_getLast? hr'
            have := (ih r').mp (mem_ofTuple.mp hmem)
            rw [hr', ← this, hlast]
        simp only [List.flatten_cons, List.flatten_nil, List.append_nil, ofTuple_append,
          List.getLast?_append, hold]
    · rw [if_neg (by simp [hkey]), if_neg hkey, List.append_nil]
      exact ih o

/-! ## The newest observation -/

/-- Of every tuple something was recorded for, a cell retains the newest observation. -/
def LatestWins (states : CircuitStates)
    (recorded : String → QuotaTuple → List QuotaObservation) : Prop :=
  ∀ key tuple, recorded key tuple ≠ [] →
    ∃ r ∈ recorded key tuple, Retains states key tuple r ∧
      ∀ o ∈ recorded key tuple, o.observedAt.le r.observedAt = true

/-- A completion records nothing older than what its cell retains, or than what it
records itself for the same tuple before. -/
def Effect.Fresh (states : CircuitStates) (e : Effect) : Prop :=
  ∀ tuple r, (ofTuple tuple e.recorded).getLast? = some r →
    (∀ o, Retains states (getKey e.target) tuple o → o.observedAt.le r.observedAt = true) ∧
      ∀ o ∈ ofTuple tuple e.recorded, o.observedAt.le r.observedAt = true

/-- The cells after some completions retain the newest observations. -/
abbrev EffectsLatest (effects : List Effect) : Prop :=
  LatestWins (effects.foldl Effect.apply .empty) (recordedFor effects)

theorem effectsLatest_nil : EffectsLatest [] :=
  fun _ _ h => absurd rfl h

/-- **One completion** keeps the newest observations exactly when it is fresh. -/
theorem effectsLatest_snoc_iff {effects : List Effect} {e : Effect} (h : EffectsLatest effects) :
    EffectsLatest (effects ++ [e]) ↔ e.Fresh (effects.foldl Effect.apply .empty) := by
  constructor
  · intro hnew tuple r hr
    have hrecorded : recordedFor (effects ++ [e]) (getKey e.target) tuple
        = recordedFor effects (getKey e.target) tuple ++ ofTuple tuple e.recorded := by
      rw [recordedFor_snoc, if_pos rfl]
    have hlast : (recordedFor (effects ++ [e]) (getKey e.target) tuple).getLast? = some r := by
      rw [hrecorded, List.getLast?_append, hr, Option.some_or]
    obtain ⟨r', -, hretains, hmax⟩ := hnew (getKey e.target) tuple (by
      intro hnil
      rw [hnil] at hlast
      cases hlast)
    have heq : r' = r := by
      have := (retains_iff _ _ _ _).mp hretains
      rw [hlast] at this
      exact (Option.some.inj this).symm
    subst heq
    rw [hrecorded] at hmax
    refine ⟨fun o ho => hmax o (List.mem_append_left _ ?_), fun o ho =>
      hmax o (List.mem_append_right _ ho)⟩
    exact List.mem_of_getLast? ((retains_iff effects _ _ _).mp ho)
  · intro hfresh key tuple hne
    have hretains := retains_iff (effects ++ [e]) key tuple
    rw [recordedFor_snoc] at hne hretains ⊢
    by_cases hkey : getKey e.target = key
    · subst hkey
      rw [if_pos rfl] at hne hretains ⊢
      by_cases hnil : ofTuple tuple e.recorded = []
      · -- the batch says nothing about the tuple
        rw [hnil, List.append_nil] at hne hretains ⊢
        obtain ⟨r, hr, hold, hmax⟩ := h (getKey e.target) tuple hne
        exact ⟨r, hr, (hretains r).mpr ((retains_iff effects _ _ _).mp hold), hmax⟩
      · obtain ⟨r, hr⟩ := Option.isSome_iff_exists.mp (List.getLast?_isSome.mpr hnil)
        obtain ⟨hbefore, hbatch⟩ := hfresh tuple r hr
        refine ⟨r, List.mem_append_right _ (List.mem_of_getLast? hr), (hretains r).mpr ?_, ?_⟩
        · rw [List.getLast?_append, hr, Option.some_or]
        · intro o ho
          rcases List.mem_append.mp ho with ho | ho
          · obtain ⟨r₀, -, hold, hmax⟩ := h (getKey e.target) tuple (List.ne_nil_of_mem ho)
            exact Number.le_trans (hmax o ho) (hbefore r₀ hold)
          · exact hbatch o ho
    · rw [if_neg hkey, List.append_nil] at hne hretains ⊢
      obtain ⟨r, hr, hold, hmax⟩ := h key tuple hne
      exact ⟨r, hr, (hretains r).mpr ((retains_iff effects _ _ _).mp hold), hmax⟩

/-! ## Runs -/

/-- A call that completes an attempt completes a fresh one. -/
def World.Fresh (w : World) : Call → Prop
  | .completeAttempt b (.object ref) outcome =>
    ∀ breaker record, w.breakers.get? b = some breaker →
      breaker.attempts.get? ref = some record →
      (w.step (.completeAttempt b (.object ref) outcome)).2.rejected = false →
      Effect.Fresh breaker.states ⟨ref, record.target, outcome, record.observation⟩
  | _ => True

omit [Url] in
/-- A call leaves the effects of a breaker as they are, forgets them, or adds the
effect of a completion. -/
theorem effects_record (b : Ref) (ledger : Ledger) (event : Call × Reply) :
    (ledger.record b event).effects = ledger.effects ∨ (ledger.record b event).effects = [] ∨
      ∃ ref outcome done, event = (.completeAttempt b (.object ref) outcome, .completed (.ok done)) := by
  unfold Ledger.record
  split
  · split
    · exact .inl rfl
    · exact .inl rfl
  · split
    · refine .inl ?_
      unfold Ledger.observe
      split <;> rfl
    · exact .inl rfl
  · rename_i b' ref outcome done
    split
    · rename_i hb
      subst hb
      exact .inr (.inr ⟨ref, outcome, done, rfl⟩)
    · exact .inl rfl
  · split
    · exact .inr (.inl rfl)
    · exact .inl rfl
  · exact .inl rfl

theorem effects_complete {w : World} {events : List (Call × Reply)} (h : w.Consistent events)
    {b : Ref} {breaker : CircuitBreaker} (hb : w.breakers.get? b = some breaker) {ref : Ref}
    {record : BreakerAttemptRecord} {outcome : AttemptOutcome}
    (hrecord : breaker.attempts.get? ref = some record)
    (haccepted : (w.step (.completeAttempt b (.object ref) outcome)).2.rejected = false) :
    (ledgerOf b (events ++ [(.completeAttempt b (.object ref) outcome,
        (w.step (.completeAttempt b (.object ref) outcome)).2)])).effects
      = (ledgerOf b events).effects ++ [⟨ref, record.target, outcome, record.observation⟩] := by
  rcases breaker.completeAttempt_cases w.heap (.object ref) outcome with
    ⟨failure, hfail⟩ | ⟨ref', record', known, done, href, hrecord', hgeneration, -, -, -, hok⟩
  · simp [World.step, hb, hfail, Reply.rejected] at haccepted
  · cases href
    rw [hrecord', Option.some.injEq] at hrecord
    subst hrecord
    have hlease := (h.breakers b breaker hb).2.lease_eq hrecord' hgeneration
    have hreply : (w.step (.completeAttempt b (.object ref) outcome)).2 = .completed (.ok done) := by
      simp only [World.step, hb, hok]
    rw [hreply, ledgerOf_snoc]
    simp only [Ledger.record, Ledger.complete, hlease]
    rfl

/-- **The newest quota observation is retained throughout a run** exactly when no
completion of the run records an observation older than the one retained. -/
theorem quota_latest_wins_iff (calls : List Call) :
    (∀ pre, pre <+: calls → ∀ b breaker,
        (finalState World.step World.initial pre).breakers.get? b = some breaker →
        LatestWins breaker.states
          (recordedFor (ledgerOf b (history World.step World.initial pre)).effects)) ↔
      ∀ pre call, pre ++ [call] <+: calls →
        (finalState World.step World.initial pre).Fresh call := by
  have hstates : ∀ pre b breaker,
      (finalState World.step World.initial pre).breakers.get? b = some breaker →
      breaker.states = (ledgerOf b (history World.step World.initial pre)).effects.foldl
        Effect.apply .empty := fun pre b breaker hb =>
    ((World.Consistent.run pre).breakers b breaker hb).2.states
  constructor
  · rintro h pre call hpre
    cases call with
    | construct => trivial
    | beginAttempt => trivial
    | observeHeaders => trivial
    | reset => trivial
    | completeAttempt b handle outcome =>
      cases handle with
      | primitive => trivial
      | object ref =>
        intro breaker record hb hrecord haccepted
        have hconsistent := World.Consistent.run pre
        have hafter := effects_complete hconsistent hb hrecord haccepted
        have hbefore := h pre ((List.prefix_append pre _).trans hpre) b breaker hb
        rw [hstates pre b breaker hb] at hbefore ⊢
        -- the breaker after the call
        obtain ⟨breaker', hb'⟩ : ∃ breaker', (finalState World.step World.initial
            (pre ++ [.completeAttempt b (.object ref) outcome])).breakers.get? b = some breaker' := by
          simp [World.step, hb, World.update]
        have hnew := h _ hpre b breaker' hb'
        rw [hstates _ b breaker' hb', history_snoc, hafter] at hnew
        exact (effectsLatest_snoc_iff hbefore).mp hnew
  · intro h
    have hall : ∀ pre, pre <+: calls → ∀ b,
        EffectsLatest (ledgerOf b (history World.step World.initial pre)).effects := by
      intro pre
      induction pre using List.reverseRecOn with
      | nil => exact fun _ _ => effectsLatest_nil
      | append_singleton pre call ih =>
        intro hpre b
        have hbefore := ih ((List.prefix_append pre _).trans hpre) b
        rw [history_snoc]
        rcases effects_record b (ledgerOf b (history World.step World.initial pre))
            (call, ((finalState World.step World.initial pre).step call).2) with
          hsame | hnil | ⟨ref, outcome, done, hevent⟩
        · rw [ledgerOf_snoc, hsame]
          exact hbefore
        · rw [ledgerOf_snoc, hnil]
          exact effectsLatest_nil
        · -- an accepted completion, of an attempt the breaker knows
          obtain ⟨hcall, hreply⟩ := Prod.mk.inj hevent
          subst hcall
          have hconsistent := World.Consistent.run pre
          have haccepted : ((finalState World.step World.initial pre).step
              (.completeAttempt b (.object ref) outcome)).2.rejected = false := by
            rw [hreply]
            rfl
          cases hb : (finalState World.step World.initial pre).breakers.get? b with
          | none => simp [World.step, hb] at hreply
          | some breaker =>
            rcases breaker.completeAttempt_cases
                (finalState World.step World.initial pre).heap (.object ref) outcome with
              ⟨failure, hfail⟩ | ⟨ref', record, -, -, href, hrecord, -⟩
            · simp [World.step, hb, hfail] at hreply
            · cases href
              rw [effects_complete hconsistent hb hrecord haccepted,
                effectsLatest_snoc_iff hbefore, ← hstates pre b breaker hb]
              exact h pre _ hpre breaker record hb hrecord haccepted
    intro pre hpre b breaker hb
    rw [hstates pre b breaker hb]
    exact hall pre hpre b

end Effects

/-! ## An older attempt that completes later -/

/-- A target of the example run. -/
def sampleTarget : ProviderTargetIdentity where
  provider := "p"
  model := some "m"
  kind := .openai
  credentialId := "p#default"
  base := none

/-- Headers of the example run, with one observation. -/
def sampleHeaders (at_ : Number) : HeaderObservation where
  target := sampleTarget
  status := 200
  elapsedMs := 1
  observedAt := at_
  quotaObservations := some [⟨.requests, .minute, 10, 5, none, at_⟩]
  retryAfterMs := none

/-- A success of the example run. -/
def sampleSuccess (at_ : Number) : AttemptOutcome where
  target := sampleTarget
  provenance := .upstream
  completedAt := at_
  elapsedMs := 1
  terminal := .succeeded 200

/-- Two attempts overlap, and the one observed first completes last. -/
def overlappingCalls : List Call :=
  [.construct, .beginAttempt 0 sampleTarget ⟨some 0, none⟩ 0,
    .beginAttempt 0 sampleTarget ⟨some 0, none⟩ 0, .observeHeaders 0 (.object 2) (sampleHeaders 1),
    .observeHeaders 0 (.object 3) (sampleHeaders 2),
    .completeAttempt 0 (.object 3) (sampleSuccess 3),
    .completeAttempt 0 (.object 2) (sampleSuccess 4)]

/-- A URL parser that is never asked. -/
def noUrl : Url := ⟨fun _ => none⟩

/-- The cell retains the older of two recorded observations. -/
theorem older_completion_wins :
    let w := finalState (@World.step noUrl) World.initial overlappingCalls
    let events := history (@World.step noUrl) World.initial overlappingCalls
    ((w.breakers.get? 0).map fun b =>
        (quotaOf b.states (getKey sampleTarget)).map QuotaObservation.observedAt) = some [1] ∧
      (recordedFor (ledgerOf 0 events).effects (getKey sampleTarget) (.requests, .minute)).map
        QuotaObservation.observedAt = [2, 1] := by
  decide +kernel

end LlmRelay
