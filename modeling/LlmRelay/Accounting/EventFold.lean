import LlmRelay.Accounting.Aggregates

/-!
# Folding a terminal request

The part of `applyTerminal` that changes aggregates. Looking up or creating a row is not
guarded, and reads no counter: here the rows are looked up first, and the chain of additions
is run on what they and the root aggregate hold.

## Main definitions

* `MutableCell`, `findRow`, `foldCell`: a minute and the fold into it;
* `MutableLifetime`, `addLifetime`: the lifetime and the fold into it.

## Main results

* `aggregates_foldCell`, `aggregates_addLifetime`: what the places hold afterwards.
-/

namespace LlmRelay.Accounting

open Ecma Transition

/-! ## Coverage -/

inductive CoverageReason where
  | retention_pruned | row_cap | detail_cap | dedup_cap | counter_overflow | corrupt_recovery
  | unknown
  deriving DecidableEq

inductive LossKind where
  | unknown | overflow | truncated | dedup | corrupt
  deriving DecidableEq

structure MutableLoss where
  kind : LossKind
  count : Nat
  field : Option Text
  deriving DecidableEq

/-- The coverage of a minute. -/
structure MutableCellCoverage where
  complete : Bool
  reason : Option CoverageReason
  droppedRows : Nat
  losses : List MutableLoss
  deriving DecidableEq

def ACCOUNTING_MAX_LOSS_MARKERS : Nat := 32

def emptyCellCoverage : MutableCellCoverage where
  complete := true
  reason := none
  droppedRows := 0
  losses := []

/-- `addLoss` of one. -/
def addLoss (kind : LossKind) (field : Option Text) : List MutableLoss → List MutableLoss
  | losses =>
    if losses.any fun loss => loss.kind = kind ∧ loss.field = field then
      losses.map fun loss =>
        if loss.kind = kind ∧ loss.field = field then
          { loss with count := (increase loss.count 1).getD maxSafeInteger }
        else
          loss
    else if losses.length < ACCOUNTING_MAX_LOSS_MARKERS then
      losses ++ [{ kind, count := 1, field }]
    else
      losses

def markCellCoverage (coverage : MutableCellCoverage) (reason : CoverageReason)
    (kind : LossKind) (field : Option Text) : MutableCellCoverage :=
  { coverage with
    complete := false
    reason :=
      if coverage.reason = none ∨ coverage.reason = some .unknown then some reason
      else coverage.reason
    losses := addLoss kind field coverage.losses }

/-! ## A minute -/

inductive RowKind where
  | request | attempt
  deriving DecidableEq

/-- The dimensions of a row, which are its key. The role is `none` on a request row. -/
structure RowKey where
  kind : RowKind
  role : Option AttemptRole
  provider : Option Text
  model : Option Text
  client : Option Text
  credentialId : Option Text
  attribution : Attribution
  outcome : Outcome
  failureKind : Option Text
  deriving DecidableEq

def ACCOUNTING_MAX_ROWS_PER_CELL : Nat := 512

structure MutableCell where
  aggregate : MutableAggregate
  rows : OrderedMap RowKey MutableAggregate
  coverage : MutableCellCoverage

/-- The aggregates of a minute. -/
inductive CellPlace where
  | aggregate
  | row (key : RowKey)
  deriving DecidableEq

namespace MutableCell

/-- What the places hold; a row that is not there has counted nothing. -/
def aggregates (cell : MutableCell) : Aggregates CellPlace
  | (.aggregate, field) => cell.aggregate field
  | (.row key, field) => (cell.rows.get? key).getD emptyAggregate field

/-- The minute with other contents of its places. -/
def withAggregates (cell : MutableCell) (state : Aggregates CellPlace) : MutableCell :=
  { cell with
    aggregate := fun field => state (.aggregate, field)
    rows := cell.rows.mapEntries fun key _ field => state (.row key, field) }

end MutableCell

/-- A row that was looked up, with the minute and what is left of the day's rows. -/
structure FoundRow where
  row : Option RowKey
  cell : MutableCell
  remaining : Nat

/-- `findRow`. -/
def findRow (cell : MutableCell) (row : RowKey) (remaining : Nat) : FoundRow :=
  if cell.rows.has row then
    { row := some row, cell, remaining }
  else if ACCOUNTING_MAX_ROWS_PER_CELL ≤ cell.rows.entries.length ∨ remaining = 0 then
    { row := none
      cell :=
        { cell with
          coverage :=
            markCellCoverage
              { cell.coverage with droppedRows := increased cell.coverage.droppedRows 1 }
              .row_cap .truncated (some (text "rows")) }
      remaining }
  else
    { row := some row
      cell := { cell with rows := cell.rows.set row emptyAggregate }
      remaining := remaining - 1 }

/-- The dimensions of an attempt's row. -/
def attemptRow (client : Option Text) (attempt : AttemptPacket) : RowKey where
  kind := .attempt
  role := some attempt.role
  provider := attempt.provider
  model := attempt.model
  client := client
  credentialId := attempt.credentialId
  attribution := attempt.attribution
  outcome := attempt.outcome
  failureKind := attempt.failureKind

/-- The rows of the attempts, looked up one after another. -/
def findAttemptRows (client : Option Text) :
    List AttemptPacket → MutableCell → Nat →
      List (AttemptPacket × Option RowKey) × MutableCell × Nat
  | [], cell, remaining => ([], cell, remaining)
  | attempt :: rest, cell, remaining =>
    let found := findRow cell (attemptRow client attempt) remaining
    let later := findAttemptRows client rest found.cell found.remaining
    ((attempt, found.row) :: later.1, later.2)

/-- The loop over the attempts of a request. -/
def addAttempts : List (AttemptPacket × Option RowKey) → AggregateChain CellPlace
  | [] => .done
  | (attempt, none) :: rest =>
    .call (addRootAttempt .aggregate attempt) <|
    addAttempts rest
  | (attempt, some row) :: rest =>
    .call (addRootAttempt .aggregate attempt) <|
    .call (addAttempt (.row row) attempt) <|
    addAttempts rest

/-- What a terminal request adds to its minute. -/
def cellChain (event : RequestCompletedEvent) (outcome : Outcome) (requestRow : Option RowKey)
    (attempts : List (AttemptPacket × Option RowKey)) : AggregateChain CellPlace :=
  .call (addRequest .aggregate event outcome) <|
  match requestRow with
  | some row => .call (addRequest (.row row) event outcome) <| addAttempts attempts
  | none => addAttempts attempts

/-- A terminal request: its outcome, the dimensions of its row, and its attempts. -/
structure TerminalWork where
  event : RequestCompletedEvent
  outcome : Outcome
  requestRow : RowKey
  client : Option Text
  attempts : List AttemptPacket

/-- The rows of a terminal request, looked up before anything is added. -/
structure FoundRows where
  request : Option RowKey
  attempts : List (AttemptPacket × Option RowKey)
  cell : MutableCell

def findRows (cell : MutableCell) (work : TerminalWork) (remaining : Nat) : FoundRows :=
  let request := findRow cell work.requestRow remaining
  let attempts := findAttemptRows work.client work.attempts request.cell request.remaining
  { request := request.row
    attempts := attempts.1
    cell := attempts.2.1 }

/-- The chain of a terminal request, with the rows that were found. -/
def FoundRows.chain (found : FoundRows) (work : TerminalWork) : AggregateChain CellPlace :=
  cellChain work.event work.outcome found.request found.attempts

/-- The fold of a terminal request into its minute, and whether everything fitted. -/
def foldCell (cell : MutableCell) (work : TerminalWork) (remaining : Nat) :
    MutableCell × Bool :=
  let found := findRows cell work remaining
  let result := (found.chain work).run found.cell.aggregates true
  (found.cell.withAggregates result.1, result.2)

/-! ## The lifetime -/

def ACCOUNTING_MAX_MONTHS : Nat := 720

/-- The aggregates over all days. -/
structure MutableLifetime where
  aggregate : MutableAggregate
  months : OrderedMap Text MutableAggregate

inductive LifetimePlace where
  | aggregate
  | month (month : Text)
  deriving DecidableEq

namespace MutableLifetime

/-- What the places hold; a month that is not there has counted nothing. -/
def aggregates (lifetime : MutableLifetime) : Aggregates LifetimePlace
  | (.aggregate, field) => lifetime.aggregate field
  | (.month month, field) => (lifetime.months.get? month).getD emptyAggregate field

def withAggregates (lifetime : MutableLifetime) (state : Aggregates LifetimePlace) :
    MutableLifetime where
  aggregate := fun field => state (.aggregate, field)
  months := lifetime.months.mapEntries fun month _ field => state (.month month, field)

/-- The lifetime in which the month is there, unless there are too many. -/
def ensureMonth (lifetime : MutableLifetime) (month : Text) : MutableLifetime :=
  if lifetime.months.has month then lifetime
  else if lifetime.months.entries.length < ACCOUNTING_MAX_MONTHS then
    { lifetime with months := lifetime.months.set month emptyAggregate }
  else
    lifetime

end MutableLifetime

/-- The loop over the attempts of a request, into a root aggregate. -/
def addRootAttempts {π : Type} (target : π) (rest : AggregateChain π) :
    List AttemptPacket → AggregateChain π
  | [] => rest
  | attempt :: later => .call (addRootAttempt target attempt) (addRootAttempts target rest later)

/-- What a terminal request adds to the lifetime, and to the month where it has a place. -/
def lifetimeChain (work : TerminalWork) (month : Option Text) : AggregateChain LifetimePlace :=
  .call (addRequest .aggregate work.event work.outcome) <|
  addRootAttempts .aggregate
    (match month with
    | none => .done
    | some month =>
      .call (addRequest (.month month) work.event work.outcome) <|
      addRootAttempts (.month month) .done work.attempts)
    work.attempts

/-- The month that is added to. -/
def monthTarget (lifetime : MutableLifetime) (month : Text) : Option Text :=
  if lifetime.months.has month then some month else none

/-- `addLifetime`, with the month of the event's end. -/
def addLifetime (lifetime : MutableLifetime) (work : TerminalWork) (month : Text) :
    MutableLifetime × Bool :=
  let lifetime := lifetime.ensureMonth month
  let result :=
    (lifetimeChain work (monthTarget lifetime month)).run lifetime.aggregates true
  (lifetime.withAggregates result.1, result.2)

/-! ## The places that are added to -/

section Places

variable {π : Type} {target : π} {slot : π × AggregateField}

theorem place_of_addRawTokens {scope : TokenScope} {source : AccountingTokenTotals}
    {fallback : Text} (h : slot ∈ (addRawTokens target scope source fallback).slots) :
    slot.1 = target := by
  simp only [addRawTokens, Chain.slots, List.mem_cons, List.not_mem_nil, or_false] at h
  rcases h with rfl | rfl | rfl | rfl | rfl | rfl | rfl <;> rfl

theorem place_of_addAggregateTokens {scope : TokenScope} {source : AggregateTokenTotals}
    (h : slot ∈ (addAggregateTokens target scope source).slots) : slot.1 = target := by
  simp only [addAggregateTokens, Chain.slots, List.mem_cons, List.not_mem_nil, or_false] at h
  rcases h with rfl | rfl | rfl | rfl | rfl | rfl | rfl <;> rfl

theorem place_of_addOutcome {outcome : Outcome}
    (h : slot ∈ (addOutcome target outcome).slots) : slot.1 = target := by
  cases outcome <;> simp_all [addOutcome, Chain.slots]

theorem place_of_addSpendIntoCells {scope : SpendScope} {record : Spend}
    (h : slot ∈ (addSpendIntoCells target scope record).slots) : slot.1 = target := by
  simp_all [addSpendIntoCells, Chain.slots]

theorem place_of_addAttemptSpend {spend : Option Spend}
    (h : slot ∈ (addAttemptSpend target spend).slots) : slot.1 = target := by
  cases spend with
  | none => exact absurd h List.not_mem_nil
  | some record => exact place_of_addSpendIntoCells h

theorem place_of_addAbandonedSpend {spends : List Spend}
    (h : slot ∈ (addAbandonedSpend target spends).slots) : slot.1 = target := by
  induction spends with
  | nil => exact absurd h List.not_mem_nil
  | cons spend rest ih =>
    rw [addAbandonedSpend, Chain.slots, List.mem_append] at h
    exact h.elim place_of_addSpendIntoCells ih

theorem place_of_addRequest {event : RequestCompletedEvent} {outcome : Outcome}
    (h : slot ∈ (addRequest target event outcome).slots) : slot.1 = target := by
  simp only [addRequest, Chain.slots, List.mem_cons, List.mem_append] at h
  rcases h with rfl | h | rfl | rfl | h | h
  · rfl
  · exact place_of_addOutcome h
  · rfl
  · rfl
  · exact place_of_addRawTokens h
  · cases hspend : event.spend with
    | none =>
      rw [hspend] at h
      simp only [Chain.slots, List.mem_cons] at h
      rcases h with rfl | h
      · rfl
      · exact place_of_addAbandonedSpend h
    | some spend =>
      rw [hspend] at h
      simp only [Chain.slots, List.mem_append] at h
      rcases h with h | h
      · exact place_of_addSpendIntoCells h
      · split at h
        · rw [Chain.slots, List.mem_cons] at h
          rcases h with rfl | h
          · rfl
          · exact place_of_addAbandonedSpend h
        · exact place_of_addAbandonedSpend h

variable {attempt : AttemptPacket}

theorem place_of_addRootAttempt (h : slot ∈ (addRootAttempt target attempt).slots) :
    slot.1 = target := by
  simp only [addRootAttempt, Chain.slots, List.mem_cons, List.mem_append, List.not_mem_nil,
    or_false] at h
  rcases h with rfl | h | h
  · rfl
  · exact place_of_addAggregateTokens h
  · exact place_of_addAttemptSpend h

theorem place_of_addAttempt (h : slot ∈ (addAttempt target attempt).slots) : slot.1 = target := by
  simp only [addAttempt, Chain.slots, List.mem_cons, List.mem_append, List.not_mem_nil,
    or_false] at h
  rcases h with rfl | h | rfl | rfl | h | h
  · rfl
  · exact place_of_addOutcome h
  · rfl
  · rfl
  · exact place_of_addAggregateTokens h
  · exact place_of_addAttemptSpend h

theorem place_of_addRootAttempts {rest : AggregateChain π} {attempts : List AttemptPacket}
    (h : slot ∈ (addRootAttempts target rest attempts).slots) :
    slot.1 = target ∨ slot ∈ rest.slots := by
  induction attempts with
  | nil => exact .inr h
  | cons attempt later ih =>
    rw [addRootAttempts, Chain.slots, List.mem_append] at h
    exact h.elim (fun h => .inl (place_of_addRootAttempt h)) ih

end Places

/-! ## Rows are there before they are added to -/

variable {cell : MutableCell} {key : RowKey} {remaining : Nat}

theorem has_findRow_of_has {row : RowKey} (h : cell.rows.has key = true) :
    (findRow cell row remaining).cell.rows.has key = true := by
  unfold findRow
  split
  · exact h
  · split
    · exact h
    · rw [OrderedMap.has, OrderedMap.get?_set]
      split
      · rfl
      · exact h

theorem has_findRow {row : RowKey} (h : (findRow cell row remaining).row = some key) :
    (findRow cell row remaining).cell.rows.has key = true := by
  unfold findRow at h ⊢
  by_cases hhas : cell.rows.has row = true
  · rw [if_pos hhas] at h ⊢
    cases h
    exact hhas
  · rw [if_neg hhas] at h ⊢
    by_cases hfull : ACCOUNTING_MAX_ROWS_PER_CELL ≤ cell.rows.entries.length ∨ remaining = 0
    · rw [if_pos hfull] at h
      cases h
    · rw [if_neg hfull] at h ⊢
      cases h
      simp [OrderedMap.has]

theorem has_findAttemptRows {client : Option Text} {attempts : List AttemptPacket}
    (h : cell.rows.has key = true
      ∨ ∃ found ∈ (findAttemptRows client attempts cell remaining).1, found.2 = some key) :
    (findAttemptRows client attempts cell remaining).2.1.rows.has key = true := by
  induction attempts generalizing cell remaining with
  | nil => exact h.resolve_right fun ⟨found, hin, _⟩ => List.not_mem_nil hin
  | cons attempt rest ih =>
    refine ih ?_
    rcases h with h | ⟨found, hin, hkey⟩
    · exact .inl (has_findRow_of_has h)
    · rcases List.mem_cons.mp hin with rfl | hin
      · exact .inl (has_findRow hkey)
      · exact .inr ⟨found, hin, hkey⟩

theorem place_of_addAttempts {attempts : List (AttemptPacket × Option RowKey)}
    {slot : CellPlace × AggregateField} (h : slot ∈ (addAttempts attempts).slots) :
    slot.1 = .aggregate ∨ ∃ found ∈ attempts, ∃ key, found.2 = some key ∧ slot.1 = .row key := by
  induction attempts with
  | nil => exact absurd h List.not_mem_nil
  | cons first rest ih =>
    have hlater : slot ∈ (addAttempts rest).slots → slot.1 = .aggregate
        ∨ ∃ found ∈ first :: rest, ∃ key, found.2 = some key ∧ slot.1 = .row key := by
      intro h
      rcases ih h with h | ⟨found, hin, hkey⟩
      · exact .inl h
      · exact .inr ⟨found, List.mem_cons_of_mem _ hin, hkey⟩
    obtain ⟨attempt, row⟩ := first
    cases row with
    | none =>
      rw [addAttempts, Chain.slots, List.mem_append] at h
      exact h.elim (fun h => .inl (place_of_addRootAttempt h)) hlater
    | some row =>
      rw [addAttempts, Chain.slots, Chain.slots, List.mem_append, List.mem_append] at h
      rcases h with h | h | h
      · exact .inl (place_of_addRootAttempt h)
      · exact .inr ⟨_, List.mem_cons_self, row, rfl, place_of_addAttempt h⟩
      · exact hlater h

theorem has_of_mem_chain {work : TerminalWork} {field : AggregateField}
    (h : (.row key, field) ∈ ((findRows cell work remaining).chain work).slots) :
    (findRows cell work remaining).cell.rows.has key = true := by
  have hattempts : (.row key, field) ∈
      (addAttempts (findRows cell work remaining).attempts).slots →
      (findRows cell work remaining).cell.rows.has key = true := by
    intro h
    rcases place_of_addAttempts h with h | ⟨found, hin, key', hkey, h⟩
    · cases h
    · cases h
      exact has_findAttemptRows (.inr ⟨found, hin, hkey⟩)
  unfold FoundRows.chain cellChain at h
  rw [Chain.slots, List.mem_append] at h
  rcases h with h | h
  · cases place_of_addRequest h
  · cases hrow : (findRows cell work remaining).request with
    | none =>
      rw [hrow] at h
      exact hattempts h
    | some row =>
      rw [hrow] at h
      simp only [Chain.slots, List.mem_append] at h
      rcases h with h | h
      · cases place_of_addRequest h
        exact has_findAttemptRows (.inl (has_findRow hrow))
      · exact hattempts h

/-- What the places of a minute hold after the fold. -/
theorem aggregates_foldCell (cell : MutableCell) (work : TerminalWork) (remaining : Nat) :
    (foldCell cell work remaining).1.aggregates
      = (((findRows cell work remaining).chain work).run
          (findRows cell work remaining).cell.aggregates true).1 := by
  funext ⟨place, field⟩
  cases place with
  | aggregate => rfl
  | row key =>
    unfold foldCell
    simp only [MutableCell.aggregates, MutableCell.withAggregates, OrderedMap.get?_mapEntries]
    cases hget : (findRows cell work remaining).cell.rows.get? key with
    | some aggregate => rfl
    | none =>
      -- nothing was added to a row that is not there
      rw [Chain.run_of_not_mem_slots]
      · simp [MutableCell.aggregates, hget]
      · intro hin
        have hhas := has_of_mem_chain hin
        rw [OrderedMap.has, hget] at hhas
        cases hhas

/-- What the places of the lifetime hold after the fold. -/
theorem aggregates_addLifetime (lifetime : MutableLifetime) (work : TerminalWork) (month : Text) :
    (addLifetime lifetime work month).1.aggregates
      = ((lifetimeChain work (monthTarget (lifetime.ensureMonth month) month)).run
          (lifetime.ensureMonth month).aggregates true).1 := by
  funext ⟨place, field⟩
  cases place with
  | aggregate => rfl
  | month month' =>
    unfold addLifetime
    simp only [MutableLifetime.aggregates, MutableLifetime.withAggregates,
      OrderedMap.get?_mapEntries]
    cases hget : (lifetime.ensureMonth month).months.get? month' with
    | some aggregate => rfl
    | none =>
      rw [Chain.run_of_not_mem_slots]
      · simp [MutableLifetime.aggregates, hget]
      · intro hin
        unfold lifetimeChain at hin
        rw [Chain.slots, List.mem_append] at hin
        rcases hin with hin | hin
        · cases place_of_addRequest hin
        · rcases place_of_addRootAttempts hin with h | hin
          · cases h
          · unfold monthTarget at hin
            split at hin
            · exact absurd hin List.not_mem_nil
            · rename_i target htarget
              split at htarget
              · rename_i hhas
                obtain rfl := Option.some.inj htarget
                rw [Chain.slots, List.mem_append] at hin
                have hplace : month' = month := by
                  rcases hin with hin | hin
                  · cases place_of_addRequest hin
                    rfl
                  · rcases place_of_addRootAttempts hin with h | hin
                    · cases h
                      rfl
                    · exact absurd hin List.not_mem_nil
                subst hplace
                rw [OrderedMap.has, hget] at hhas
                cases hhas
              · cases htarget

end LlmRelay.Accounting
