import LlmRelay.Accounting.EventFold

/-!
# An overflow skips what comes behind it

The additions of an event are chained by `&&=`, so the first one that does not fit keeps the
rest from being made, on whatever counter, cell or row they are.

## Main results

* `grows_cellChain`, `grows_lifetimeChain`: an addition that is made shows;
* `fold_contained_iff`: an overflow is contained exactly when all that is skipped overflows
  itself;
* `overflow_skips_row`: two requests from the empty store of which the second is missing in
  its row.
-/

namespace LlmRelay.Accounting

open Ecma Transition

/-! ## Additions show -/

section Grows

/-- What a slot has counted. -/
def slotCounted {π : Type} (slot : π × AggregateField) : slot.2.Value → Nat :=
  slot.2.counted

/-- Every addition of the chain shows in its slot. -/
abbrev Shows {π : Type} (chain : AggregateChain π) : Prop :=
  chain.Grows slotCounted

theorem updateMethod_toTokenCell (incoming : Option Text) (cell : EstimatedTokenCell) :
    (updateMethod incoming cell).toTokenCell = cell.toTokenCell := by
  unfold updateMethod
  dsimp only
  repeat' split
  all_goals rfl

/-- The packet's cells have each counted something. -/
structure AggregateTokenTotals.Measured (tokens : AggregateTokenTotals) : Prop where
  reported : ∀ cell, 0 < (tokens.reported cell).counted
  estimated : ∀ cell, 0 < (tokens.estimated cell).toTokenCell.counted

variable {π : Type} [DecidableEq π] (target : π)

omit [DecidableEq π] in
theorem shows_addRawTokens (scope : TokenScope) (source : AccountingTokenTotals)
    (fallback : Text) : Shows (addRawTokens target scope source fallback) := by
  have hraw : ∀ cell v, (addRawTokenCell cell fallback v).2 = true →
      v.counted < (addRawTokenCell cell fallback v).1.counted := by
    intro cell v h
    rw [addRawTokenCell_grows h]
    exact Nat.lt_succ_self _
  have hmethod : ∀ method v, (updateMethod method v).toTokenCell.counted
      = v.toTokenCell.counted := fun method v => by rw [updateMethod_toTokenCell]
  exact ⟨hraw _, fun _ => rfl, hraw _, fun _ => rfl, hraw _, fun _ => rfl, hraw _,
    fun _ => rfl, hraw _, fun _ => rfl, fun v => hraw _ v.toTokenCell, hmethod _,
    fun v => hraw _ v.toTokenCell, hmethod _, trivial⟩

omit [DecidableEq π] in
theorem shows_addAggregateTokens (scope : TokenScope) {source : AggregateTokenTotals}
    (hsource : source.Measured) : Shows (addAggregateTokens target scope source) := by
  have hadd : ∀ cell : TokenCell, 0 < cell.counted → ∀ v,
      (addAggregateTokenCell cell v).2 = true →
      v.counted < (addAggregateTokenCell cell v).1.counted := by
    intro cell hcell v h
    rw [addAggregateTokenCell_grows h]
    exact Nat.lt_add_of_pos_right hcell
  have hmethod : ∀ method v, (updateMethod method v).toTokenCell.counted
      = v.toTokenCell.counted := fun method v => by rw [updateMethod_toTokenCell]
  exact ⟨hadd _ (hsource.reported _), fun _ => rfl, hadd _ (hsource.reported _), fun _ => rfl,
    hadd _ (hsource.reported _), fun _ => rfl, hadd _ (hsource.reported _), fun _ => rfl,
    hadd _ (hsource.reported _), fun _ => rfl,
    fun v => hadd _ (hsource.estimated _) v.toTokenCell, hmethod _,
    fun v => hadd _ (hsource.estimated _) v.toTokenCell, hmethod _, trivial⟩

theorem measured_tokenSnapshot (source : AccountingTokenTotals) (fallback : Text) :
    (tokenSnapshot source fallback).Measured := by
  have hempty : ∀ cell, (addRawTokenCell cell fallback emptyTokenCell).2 = true := by
    intro cell
    unfold addRawTokenCell
    cases safeCounter cell.value <;> rfl
  have hfits : (addRawTokens () .tokens source fallback).overflowing
      (fun slot => emptyAggregate slot.2) = [] := by
    simp [Chain.overflowing, addRawTokens, emptyAggregate, addEstimated, hempty]
  have hrun := Chain.run_of_overflowing_nil hfits
  have hgrown : ∀ slot ∈ (addRawTokens () .tokens source fallback).slots,
      slotCounted slot (emptyAggregate slot.2) < slotCounted slot
        ((addRawTokens () .tokens source fallback).runAll (fun slot => emptyAggregate slot.2)
          slot) := by
    intro slot hslot
    have hnot : slot ∉ (addRawTokens () .tokens source fallback).overflowing
        (fun slot => emptyAggregate slot.2) := by
      rw [hfits]
      exact List.not_mem_nil
    exact ((shows_addRawTokens () .tokens source fallback).runAll hnot).2 hslot
  constructor
  · intro cell
    unfold tokenSnapshot
    rw [hrun]
    refine (Nat.zero_le _).trans_lt (hgrown ((), .reported .tokens cell) ?_)
    cases cell <;> simp [addRawTokens, Chain.slots]
  · intro cell
    unfold tokenSnapshot
    rw [hrun]
    refine (Nat.zero_le _).trans_lt (hgrown ((), .estimated .tokens cell) ?_)
    cases cell <;> simp [addRawTokens, Chain.slots]

omit [DecidableEq π] in
theorem shows_addOutcome (outcome : Outcome) : Shows (addOutcome target outcome) := by
  cases outcome with
  | unknown => trivial
  | success | error | cancelled => exact ⟨fun _ => increaseCounter_grows, fun _ => rfl, trivial⟩

omit [DecidableEq π] in
theorem shows_addSpendIntoCells (scope : SpendScope) (record : Spend) :
    Shows (addSpendIntoCells target scope record) := by
  refine ⟨fun v h => ?_, fun _ => rfl, trivial⟩
  show v.known < (addSpendCell record v).1.known
  rw [addSpendCell_grows h]
  exact Nat.lt_succ_self _

omit [DecidableEq π] in
theorem shows_addAttemptSpend (spend : Option Spend) : Shows (addAttemptSpend target spend) := by
  cases spend with
  | none => trivial
  | some record => exact shows_addSpendIntoCells target .spend record

omit [DecidableEq π] in
theorem shows_addAbandonedSpend (spends : List Spend) :
    Shows (addAbandonedSpend target spends) := by
  induction spends with
  | nil => trivial
  | cons spend rest ih => exact ⟨shows_addSpendIntoCells target .abandonedSpend spend, ih⟩

theorem metric_shows (value : Option Nat) (observedAt : Text) (metric : Metric)
    (h : (addMetric value observedAt metric).2 = true) :
    metric.counted < (addMetric value observedAt metric).1.counted := by
  rw [addMetric_grows h]
  exact Nat.lt_succ_self _

omit [DecidableEq π] in
theorem shows_addRequest (event : RequestCompletedEvent) (outcome : Outcome) :
    Shows (addRequest target event outcome) := by
  refine ⟨fun _ => increaseCounter_grows, fun _ => rfl, shows_addOutcome target outcome,
    metric_shows _ _, fun _ => rfl, metric_shows _ _, fun _ => rfl,
    shows_addRawTokens target .requestTokens event.tokens event.endedAt, ?_⟩
  cases event.spend with
  | none =>
    exact ⟨fun _ => increaseCounter_grows, fun _ => rfl, shows_addAbandonedSpend target _⟩
  | some spend =>
    refine ⟨shows_addSpendIntoCells target .requestSpend spend, ?_⟩
    dsimp only
    split
    · exact ⟨fun _ => increaseCounter_grows, fun _ => rfl, shows_addAbandonedSpend target _⟩
    · exact shows_addAbandonedSpend target _

variable {attempt : AttemptPacket}

omit [DecidableEq π] in
theorem shows_addRootAttempt (h : attempt.tokens.Measured) :
    Shows (addRootAttempt target attempt) :=
  ⟨fun _ => increaseCounter_grows, fun _ => rfl, shows_addAggregateTokens target .tokens h,
    shows_addAttemptSpend target attempt.spend, trivial⟩

omit [DecidableEq π] in
theorem shows_addAttempt (h : attempt.tokens.Measured) : Shows (addAttempt target attempt) :=
  ⟨fun _ => increaseCounter_grows, fun _ => rfl, shows_addOutcome target attempt.outcome,
    metric_shows _ _, fun _ => rfl, metric_shows _ _, fun _ => rfl,
    shows_addAggregateTokens target .tokens h, shows_addAttemptSpend target attempt.spend, trivial⟩

theorem shows_addAttempts {attempts : List (AttemptPacket × Option RowKey)}
    (h : ∀ attempt ∈ attempts, attempt.1.tokens.Measured) : Shows (addAttempts attempts) := by
  induction attempts with
  | nil => trivial
  | cons first rest ih =>
    obtain ⟨attempt, row⟩ := first
    have hattempt := h (attempt, row) List.mem_cons_self
    have hrest := ih fun attempt hin => h attempt (List.mem_cons_of_mem _ hin)
    cases row with
    | none => exact ⟨shows_addRootAttempt CellPlace.aggregate hattempt, hrest⟩
    | some row =>
      exact ⟨shows_addRootAttempt CellPlace.aggregate hattempt,
        shows_addAttempt (CellPlace.row row) hattempt, hrest⟩

omit [DecidableEq π] in
theorem shows_addRootAttempts {rest : AggregateChain π} {attempts : List AttemptPacket}
    (hrest : Shows rest) (h : ∀ attempt ∈ attempts, attempt.tokens.Measured) :
    Shows (addRootAttempts target rest attempts) := by
  induction attempts with
  | nil => exact hrest
  | cons attempt later ih =>
    exact ⟨shows_addRootAttempt target (h attempt List.mem_cons_self),
      ih fun attempt hin => h attempt (List.mem_cons_of_mem _ hin)⟩

end Grows

/-- The attempts of the request were packed by `makeAttempt`. -/
def TerminalWork.Measured (work : TerminalWork) : Prop :=
  ∀ attempt ∈ work.attempts, attempt.tokens.Measured

theorem fst_mem_findAttemptRows {client : Option Text} {attempts : List AttemptPacket}
    {cell : MutableCell} {remaining : Nat} :
    ∀ found ∈ (findAttemptRows client attempts cell remaining).1, found.1 ∈ attempts := by
  induction attempts generalizing cell remaining with
  | nil => exact fun found hin => absurd hin List.not_mem_nil
  | cons attempt rest ih =>
    intro found hin
    rw [findAttemptRows, List.mem_cons] at hin
    rcases hin with rfl | hin
    · exact List.mem_cons_self
    · exact List.mem_cons_of_mem _ (ih found hin)

theorem shows_chain {work : TerminalWork} (h : work.Measured) (cell : MutableCell)
    (remaining : Nat) : Shows ((findRows cell work remaining).chain work) := by
  have hattempts : Shows (addAttempts (findRows cell work remaining).attempts) :=
    shows_addAttempts fun attempt hin => h attempt.1 (fst_mem_findAttemptRows attempt hin)
  refine ⟨shows_addRequest CellPlace.aggregate work.event work.outcome, ?_⟩
  cases (findRows cell work remaining).request with
  | none => exact hattempts
  | some row => exact ⟨shows_addRequest (CellPlace.row row) work.event work.outcome, hattempts⟩

theorem shows_lifetimeChain {work : TerminalWork} (h : work.Measured) (month : Option Text) :
    Shows (lifetimeChain work month) := by
  refine ⟨shows_addRequest LifetimePlace.aggregate work.event work.outcome,
    shows_addRootAttempts LifetimePlace.aggregate ?_ h⟩
  cases month with
  | none => trivial
  | some month =>
    exact ⟨shows_addRequest (LifetimePlace.month month) work.event work.outcome,
      shows_addRootAttempts (LifetimePlace.month month) trivial h⟩

/-! ## Containment -/

/-- A terminal request with the attempts that `makeAttempt` packed. -/
def terminalWork (event : RequestCompletedEvent) (outcome : Outcome) (requestRow : RowKey)
    (client : Option Text) (attempts : List AttemptCompletedEvent) : TerminalWork where
  event := event
  outcome := outcome
  requestRow := requestRow
  client := client
  attempts := attempts.map makeAttempt

theorem measured_terminalWork (event : RequestCompletedEvent) (outcome : Outcome)
    (requestRow : RowKey) (client : Option Text) (attempts : List AttemptCompletedEvent) :
    (terminalWork event outcome requestRow client attempts).Measured := by
  intro attempt hin
  obtain ⟨completed, -, rfl⟩ := List.mem_map.mp hin
  exact measured_tokenSnapshot completed.tokens completed.endedAt

section Fold

variable (cell : MutableCell) (lifetime : MutableLifetime) (work : TerminalWork)
  (remaining : Nat) (month : Text)

/-- The slots of a minute that the request makes overflow. -/
def cellOverflows : List (CellPlace × AggregateField) :=
  ((findRows cell work remaining).chain work).overflowing
    (findRows cell work remaining).cell.aggregates

/-- The slots of a minute that are to be added to behind the first overflow. -/
def cellSkipped : List (CellPlace × AggregateField) :=
  ((findRows cell work remaining).chain work).skipped
    (findRows cell work remaining).cell.aggregates

/-- A minute with every addition of the request made. -/
def cellWithAll : Aggregates CellPlace :=
  ((findRows cell work remaining).chain work).runAll (findRows cell work remaining).cell.aggregates

def lifetimeOverflows : List (LifetimePlace × AggregateField) :=
  (lifetimeChain work (monthTarget (lifetime.ensureMonth month) month)).overflowing
    (lifetime.ensureMonth month).aggregates

def lifetimeSkipped : List (LifetimePlace × AggregateField) :=
  (lifetimeChain work (monthTarget (lifetime.ensureMonth month) month)).skipped
    (lifetime.ensureMonth month).aggregates

def lifetimeWithAll : Aggregates LifetimePlace :=
  (lifetimeChain work (monthTarget (lifetime.ensureMonth month) month)).runAll
    (lifetime.ensureMonth month).aggregates

/-- Every counter and cell that does not overflow ends as with every addition made. -/
structure OverflowContained : Prop where
  cell : ∀ slot, slot ∉ cellOverflows cell work remaining →
    (foldCell cell work remaining).1.aggregates slot = cellWithAll cell work remaining slot
  lifetime : ∀ slot, slot ∉ lifetimeOverflows lifetime work month →
    (addLifetime lifetime work month).1.aggregates slot = lifetimeWithAll lifetime work month slot

/-- Every counter and cell that is still to be added to behind the first overflow overflows
itself. -/
structure SkipsOverflowingOnly : Prop where
  cell : ∀ slot ∈ cellSkipped cell work remaining, slot ∈ cellOverflows cell work remaining
  lifetime : ∀ slot ∈ lifetimeSkipped lifetime work month,
    slot ∈ lifetimeOverflows lifetime work month

variable {cell lifetime work remaining month} in
theorem overflowContained_iff (h : work.Measured) :
    OverflowContained cell lifetime work remaining month
      ↔ SkipsOverflowingOnly cell lifetime work remaining month := by
  have hcell := (shows_chain h cell remaining).run_agrees_iff
    (findRows cell work remaining).cell.aggregates
  have hlifetime := (shows_lifetimeChain h
    (monthTarget (lifetime.ensureMonth month) month)).run_agrees_iff
    (lifetime.ensureMonth month).aggregates
  rw [← aggregates_foldCell] at hcell
  rw [← aggregates_addLifetime] at hlifetime
  exact ⟨fun ⟨h, h'⟩ => ⟨hcell.mp h, hlifetime.mp h'⟩,
    fun ⟨h, h'⟩ => ⟨hcell.mpr h, hlifetime.mpr h'⟩⟩

end Fold

/-- **Overflow containment**: folding a request into whatever aggregates makes every addition
to the counters and cells that do not overflow exactly when nothing but overflowing counters
and cells stands behind the first overflow. -/
theorem fold_contained_iff (cell : MutableCell) (lifetime : MutableLifetime)
    (event : RequestCompletedEvent) (outcome : Outcome) (requestRow : RowKey)
    (client : Option Text) (attempts : List AttemptCompletedEvent) (remaining : Nat)
    (month : Text) :
    OverflowContained cell lifetime (terminalWork event outcome requestRow client attempts)
        remaining month
      ↔ SkipsOverflowingOnly cell lifetime
          (terminalWork event outcome requestRow client attempts) remaining month :=
  overflowContained_iff (measured_terminalWork event outcome requestRow client attempts)

/-! ## Two requests in one minute -/

section Example

/-- A successful request that reports so many input tokens and nothing else. -/
def requestOfInput (input : Nat) : RequestCompletedEvent where
  endedAt := text "2026-09-01T10:00:30.000Z"
  latencyMs := some 10
  commitMs := some 5
  tokens :=
    { reported := fun
        | .reportedInput => { value := some input, observedAt := none, method := none }
        | _ => { value := none, observedAt := none, method := none }
      estimated := fun _ => { value := none, observedAt := none, method := none } }
  spend := none
  abandonedSpend := []

def sampleRow : RowKey where
  kind := .request
  role := none
  provider := some (text "nim")
  model := none
  client := none
  credentialId := none
  attribution := .relay_held
  outcome := .success
  failureKind := none

def workOfInput (input : Nat) : TerminalWork :=
  terminalWork (requestOfInput input) .success sampleRow none []

def emptyCell : MutableCell where
  aggregate := emptyAggregate
  rows := .empty
  coverage := emptyCellCoverage

def emptyLifetime : MutableLifetime where
  aggregate := emptyAggregate
  months := .empty

def sampleMonth : Text := text "2026-09"

/-- The largest token count that is accepted, and one token more in the same minute: the
second request is counted in the minute and not in its row. -/
theorem overflow_skips_row :
    ¬OverflowContained (foldCell emptyCell (workOfInput maxSafeInteger) 4096).1
      (addLifetime emptyLifetime (workOfInput maxSafeInteger) sampleMonth).1
      (terminalWork (requestOfInput 1) .success sampleRow none []) 4095 sampleMonth := by
  intro h
  have hagree := h.cell (.row sampleRow, .counter .requests) (by decide +kernel)
  revert hagree
  change ¬((foldCell (foldCell emptyCell (workOfInput maxSafeInteger) 4096).1
      (workOfInput 1) 4095).1.aggregates (.row sampleRow, .counter .requests) : Nat)
    = (cellWithAll (foldCell emptyCell (workOfInput maxSafeInteger) 4096).1
      (workOfInput 1) 4095 (.row sampleRow, .counter .requests) : Nat)
  decide +kernel

end Example

end LlmRelay.Accounting
