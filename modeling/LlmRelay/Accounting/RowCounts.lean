import LlmRelay.Accounting.OverflowContainment
import LlmRelay.Accounting.Store

/-!
# What the rows of a day have counted

A request whose row is there and whose additions are made shows in the requests and token
cells of its row, and in no other request row of the day.

## Main definitions

* `CellRepresents`, `RowRepresents`, `DayRepresents`: a cell, a row and a day hold exactly the
  requests of a list;
* `Counted`: the row of a request takes part in its fold.

## Main results

* `CellRepresents.addRawTokenCell`: one more fact in a cell;
* `DayRepresents.applyToDay`: one more request in a day.
-/

namespace LlmRelay.Accounting

open Ecma Transition

/-! ## Cells -/

/-- The sum of the facts that are known. -/
def factSum (facts : List (Option Nat)) : Nat :=
  (facts.map fun fact => fact.getD 0).sum

/-- The cell has counted these facts, and holds their sum when all of them are known. -/
structure CellRepresents (cell : TokenCell) (facts : List (Option Nat)) : Prop where
  known : cell.known = facts.countP Option.isSome
  unknown : cell.unknown = facts.countP Option.isNone
  lost : cell.lost = 0
  overflow : cell.overflow = false
  value : facts.countP Option.isNone = 0 → facts ≠ [] → cell.value = some (factSum facts)

theorem CellRepresents.empty : CellRepresents emptyTokenCell [] where
  known := rfl
  unknown := rfl
  lost := rfl
  overflow := rfl
  value := fun _ h => absurd rfl h

variable {facts : List (Option Nat)}

theorem CellRepresents.uncertain_iff {cell : TokenCell} (h : CellRepresents cell facts) :
    cell.uncertain = true ↔ 0 < facts.countP Option.isNone := by
  simp [TokenCell.uncertain, h.lost, h.overflow, h.unknown]

theorem countP_isSome_pos (hne : facts ≠ []) (hnone : facts.countP Option.isNone = 0) :
    0 < facts.countP Option.isSome := by
  obtain ⟨fact, hin⟩ := List.exists_mem_of_ne_nil facts hne
  refine List.countP_pos_iff.mpr ⟨fact, hin, ?_⟩
  simpa [Option.isSome_iff_ne_none] using List.countP_eq_zero.mp hnone fact hin

variable {fallback : Text}

/-- One more fact, where it fits. -/
theorem CellRepresents.addRawTokenCell {cell : TokenCell} {facts : List (Option Nat)}
    (h : CellRepresents cell facts) {source : SourceCell}
    (hfits : (addRawTokenCell source fallback cell).2 = true) :
    CellRepresents (addRawTokenCell source fallback cell).1
      (facts ++ [safeCounter source.value]) := by
  unfold Accounting.addRawTokenCell at hfits ⊢
  cases hsource : safeCounter source.value with
  | none =>
    rw [hsource] at hfits
    cases hincrease : increase cell.unknown 1 with
    | none =>
      rw [hincrease] at hfits
      cases hfits
    | some unknown =>
      refine ⟨?_, ?_, h.lost, h.overflow, ?_⟩
      · simp [h.known]
      · simp [increase_eq_some hincrease, h.unknown]
      · intro hnone
        simp at hnone
  | some value =>
    rw [hsource] at hfits
    cases hincrease : increase cell.known 1 with
    | none =>
      rw [hincrease] at hfits
      cases hfits
    | some known =>
      rw [hincrease] at hfits
      dsimp only at hfits ⊢
      have hknown : known = (facts ++ [some value]).countP Option.isSome := by
        simp [increase_eq_some hincrease, h.known]
      have hunknown : cell.unknown = (facts ++ [some value]).countP Option.isNone := by
        simp [h.unknown]
      have hsum : factSum (facts ++ [some value]) = factSum facts + value := by
        simp [factSum]
      by_cases huncertain : cell.uncertain = true
      · -- an unknown fact among the earlier ones keeps the value away
        have hsome := h.uncertain_iff.mp huncertain
        have hsame : ({ cell with
            known
            observedAt := latest cell.observedAt (some (source.observedAt.getD fallback))
            : TokenCell }).uncertain = true := huncertain
        rw [if_pos hsame]
        refine ⟨hknown, hunknown, h.lost, h.overflow, fun hnone => ?_⟩
        simp only [List.countP_append] at hnone
        omega
      · have hsame : ({ cell with
            known
            observedAt := latest cell.observedAt (some (source.observedAt.getD fallback))
            : TokenCell }).uncertain ≠ true := huncertain
        have hnone : facts.countP Option.isNone = 0 := by
          have := mt h.uncertain_iff.mpr huncertain
          omega
        rw [if_neg hsame] at hfits ⊢
        rcases List.eq_nil_or_concat facts with rfl | ⟨_, _, hconcat⟩
        · have hzero : cell.known = 0 := h.known
          cases hvalue : cell.value with
          | none =>
            exact ⟨hknown, hunknown, h.lost, h.overflow, fun _ _ => by simp [factSum]⟩
          | some sum =>
            dsimp only
            rw [if_pos hzero]
            exact ⟨hknown, hunknown, h.lost, h.overflow, fun _ _ => by simp [factSum]⟩
        · have hne : facts ≠ [] := by
            rw [hconcat]
            simp
          have hpos : cell.known ≠ 0 := by
            rw [h.known]
            exact (countP_isSome_pos hne hnone).ne'
          rw [h.value hnone hne] at hfits ⊢
          dsimp only at hfits ⊢
          rw [if_neg hpos] at hfits ⊢
          split at hfits
          · cases hfits
          · rename_i hle
            rw [if_neg hle]
            exact ⟨hknown, hunknown, h.lost, h.overflow, fun _ _ => by rw [hsum]⟩

/-! ## Rows -/

/-- The facts of one reported cell. -/
def reportedFacts (cell : ReportedField) (requests : List AppliedRequest) :
    List (Option Nat) :=
  requests.map fun request => safeCounter (request.tokens.reported cell).value

/-- The facts of one estimated cell. -/
def estimatedFacts (cell : EstimatedField) (requests : List AppliedRequest) :
    List (Option Nat) :=
  requests.map fun request => safeCounter (request.tokens.estimated cell).value

/-- The row has counted these requests, with their input and output tokens. -/
structure RowRepresents (row : MutableAggregate) (requests : List AppliedRequest) : Prop where
  count : row (.counter .requests) = requests.length
  reportedInput : CellRepresents (row (.reported .requestTokens .reportedInput))
    (reportedFacts .reportedInput requests)
  reportedOutput : CellRepresents (row (.reported .requestTokens .reportedOutput))
    (reportedFacts .reportedOutput requests)
  estimatedInput : CellRepresents
    (row (.estimated .requestTokens .estimatedInput)).toTokenCell
    (estimatedFacts .estimatedInput requests)
  estimatedOutput : CellRepresents
    (row (.estimated .requestTokens .estimatedOutput)).toTokenCell
    (estimatedFacts .estimatedOutput requests)

theorem RowRepresents.empty : RowRepresents emptyAggregate [] where
  count := rfl
  reportedInput := .empty
  reportedOutput := .empty
  estimatedInput := .empty
  estimatedOutput := .empty

/-- The fields that the usage window reads. -/
def windowFields : List AggregateField :=
  [.counter .requests, .reported .requestTokens .reportedInput,
    .reported .requestTokens .reportedOutput, .estimated .requestTokens .estimatedInput,
    .estimated .requestTokens .estimatedOutput]

variable {requests : List AppliedRequest}

theorem RowRepresents.congr {row row' : MutableAggregate}
    (h : RowRepresents row requests) (heq : ∀ field ∈ windowFields, row' field = row field) :
    RowRepresents row' requests where
  count := (heq _ (by simp [windowFields])).trans h.count
  reportedInput := heq (.reported .requestTokens .reportedInput) (by simp [windowFields])
    ▸ h.reportedInput
  reportedOutput := heq (.reported .requestTokens .reportedOutput) (by simp [windowFields])
    ▸ h.reportedOutput
  estimatedInput := heq (.estimated .requestTokens .estimatedInput) (by simp [windowFields])
    ▸ h.estimatedInput
  estimatedOutput := heq (.estimated .requestTokens .estimatedOutput) (by simp [windowFields])
    ▸ h.estimatedOutput

/-! ## One addition to one field -/

section OneAddition

variable {π : Type} [DecidableEq π] {target : π} {state : Aggregates π}

variable {field : AggregateField} {event : RequestCompletedEvent} {source : AccountingTokenTotals}

omit [DecidableEq π] in
theorem not_mem_slots_addOutcome {outcome : Outcome} (h : field ∈ windowFields) :
    (target, field) ∉ (addOutcome target outcome).slots := by
  simp only [windowFields, List.mem_cons, List.not_mem_nil, or_false] at h
  rcases h with rfl | rfl | rfl | rfl | rfl <;> cases outcome <;>
    simp [addOutcome, Chain.slots]

omit [DecidableEq π] in
theorem not_mem_slots_addAbandonedSpend {spends : List Spend} (h : field ∈ windowFields) :
    (target, field) ∉ (addAbandonedSpend target spends).slots := by
  induction spends with
  | nil => exact List.not_mem_nil
  | cons spend rest ih =>
    rw [addAbandonedSpend, Chain.slots, List.mem_append, not_or]
    refine ⟨?_, ih⟩
    simp only [windowFields, List.mem_cons, List.not_mem_nil, or_false] at h
    rcases h with rfl | rfl | rfl | rfl | rfl <;> simp [addSpendIntoCells, Chain.slots]

omit [DecidableEq π] in
theorem not_mem_slots_spend (h : field ∈ windowFields) :
    (target, field) ∉ Chain.slots (V := fun slot : π × AggregateField => slot.2.Value)
      (match event.spend with
      | some spend =>
        .call (addSpendIntoCells target .requestSpend spend) <|
        if spend.coverage ≠ .full then
          .add (target, .counter .partiallyPricedRequests) increaseCounter id <|
          addAbandonedSpend target event.abandonedSpend
        else
          addAbandonedSpend target event.abandonedSpend
      | none =>
        .add (target, .counter .unpricedRequests) increaseCounter id <|
        addAbandonedSpend target event.abandonedSpend) := by
  have habandoned : (target, field) ∉ (addAbandonedSpend target event.abandonedSpend).slots :=
    not_mem_slots_addAbandonedSpend h
  have hother : field ≠ .counter .partiallyPricedRequests ∧ field ≠ .counter .unpricedRequests
      ∧ ∀ cell, field ≠ .spend .requestSpend cell := by
    simp only [windowFields, List.mem_cons, List.not_mem_nil, or_false] at h
    rcases h with rfl | rfl | rfl | rfl | rfl <;> simp
  cases event.spend with
  | none => simpa [Chain.slots, hother.2.1] using habandoned
  | some spend =>
    dsimp only
    split <;> simpa [Chain.slots, addSpendIntoCells, hother.1, hother.2.2] using habandoned

variable (target state) in
theorem addRequest_requests (event : RequestCompletedEvent) (outcome : Outcome) :
    (addRequest target event outcome).runAll state (target, .counter .requests)
        = (increaseCounter (state (target, .counter .requests))).1
      ∧ ((target, .counter .requests) ∉ (addRequest target event outcome).overflowing state →
        (increaseCounter (state (target, .counter .requests))).2 = true) := by
  have hfield : AggregateField.counter .requests ∈ windowFields := by simp [windowFields]
  constructor
  · rw [addRequest, Chain.runAll, Chain.runAll_of_not_mem_slots, Function.update_self]
    · rfl
    · simp only [Chain.slots, List.mem_append, List.mem_cons, not_or]
      refine ⟨not_mem_slots_addOutcome hfield, by simp, by simp, ?_, not_mem_slots_spend hfield⟩
      simp [addRawTokens, Chain.slots]
  · intro hfits
    rw [addRequest, Chain.overflowing, List.mem_append, not_or] at hfits
    by_contra hno
    rw [if_neg hno] at hfits
    exact hfits.1 (List.mem_singleton_self _)

theorem runAll_addRawTokens_reported (scope : TokenScope) (source : AccountingTokenTotals)
    (fallback : Text) (cell : ReportedField) :
    (addRawTokens target scope source fallback).runAll state (target, .reported scope cell)
      = (addRawTokenCell (source.reported cell) fallback
          (state (target, .reported scope cell))).1 := by
  cases cell <;> simp [addRawTokens, Chain.runAll]

theorem runAll_addRawTokens_estimated (scope : TokenScope) (source : AccountingTokenTotals)
    (fallback : Text) (cell : EstimatedField) :
    ((addRawTokens target scope source fallback).runAll state
        (target, .estimated scope cell)).toTokenCell
      = (addRawTokenCell (source.estimated cell) fallback
          (state (target, .estimated scope cell)).toTokenCell).1 := by
  cases cell <;> simp [addRawTokens, Chain.runAll, updateMethod_toTokenCell, addEstimated]

theorem fits_addRawTokens_reported {scope : TokenScope} {cell : ReportedField}
    (h : (target, .reported scope cell)
      ∉ (addRawTokens target scope source fallback).overflowing state) :
    (addRawTokenCell (source.reported cell) fallback
      (state (target, .reported scope cell))).2 = true := by
  revert h
  cases cell <;> simp [addRawTokens, Chain.overflowing]

theorem fits_addRawTokens_estimated {scope : TokenScope} {cell : EstimatedField}
    (h : (target, .estimated scope cell)
      ∉ (addRawTokens target scope source fallback).overflowing state) :
    (addRawTokenCell (source.estimated cell) fallback
      (state (target, .estimated scope cell)).toTokenCell).2 = true := by
  revert h
  cases cell <;> simp [addRawTokens, Chain.overflowing, addEstimated]

theorem runAll_middle {slot s₀ s₁ s₂ : π × AggregateField} {f₀ f₁ f₂ g₀ g₁ g₂}
    {first middle last : AggregateChain π} (h₀ : slot ≠ s₀) (h₁ : slot ≠ s₁) (h₂ : slot ≠ s₂)
    (hfirst : slot ∉ first.slots) (hlast : slot ∉ last.slots) :
    ∃ before : Aggregates π, before slot = state slot
      ∧ (Chain.add s₀ f₀ g₀ <| .call first <| .add s₁ f₁ g₁ <| .add s₂ f₂ g₂ <|
          .call middle last).runAll state slot = middle.runAll before slot
      ∧ (slot ∉ (Chain.add s₀ f₀ g₀ <| .call first <| .add s₁ f₁ g₁ <| .add s₂ f₂ g₂ <|
          .call middle last).overflowing state → slot ∉ middle.overflowing before) := by
  refine ⟨?before, ?_, ?_, ?_⟩
  rotate_left 2
  · rw [Chain.runAll, Chain.runAll, Chain.runAll, Chain.runAll, Chain.runAll,
      Chain.runAll_of_not_mem_slots hlast]
  · intro hfits
    simp only [Chain.overflowing, List.mem_append, not_or] at hfits
    exact hfits.2.2.2.2.1
  · rw [Function.update_of_ne h₂, Function.update_of_ne h₁,
      Chain.runAll_of_not_mem_slots hfirst, Function.update_of_ne h₀]

variable (target state) in
theorem addRequest_tokens (event : RequestCompletedEvent) (outcome : Outcome)
    (hfield : field ∈ windowFields) (hne : field ≠ .counter .requests) :
    ∃ before : Aggregates π, before (target, field) = state (target, field)
      ∧ (addRequest target event outcome).runAll state (target, field)
        = (addRawTokens target .requestTokens event.tokens event.endedAt).runAll before
            (target, field)
      ∧ ((target, field) ∉ (addRequest target event outcome).overflowing state →
        (target, field) ∉ (addRawTokens target .requestTokens event.tokens
          event.endedAt).overflowing before) := by
  have hmetric : ∀ metric, field ≠ .metric metric := by
    simp only [windowFields, List.mem_cons, List.not_mem_nil, or_false] at hfield
    rcases hfield with rfl | rfl | rfl | rfl | rfl <;> simp
  exact runAll_middle (by simp [hne]) (by simp [hmetric]) (by simp [hmetric])
    (not_mem_slots_addOutcome hfield) (not_mem_slots_spend hfield)

variable (target state) in
theorem addRequest_reported (event : RequestCompletedEvent) (outcome : Outcome)
    {cell : ReportedField} (hcell : .reported .requestTokens cell ∈ windowFields) :
    (addRequest target event outcome).runAll state (target, .reported .requestTokens cell)
        = (addRawTokenCell (event.tokens.reported cell) event.endedAt
            (state (target, .reported .requestTokens cell))).1
      ∧ ((target, .reported .requestTokens cell)
          ∉ (addRequest target event outcome).overflowing state →
        (addRawTokenCell (event.tokens.reported cell) event.endedAt
          (state (target, .reported .requestTokens cell))).2 = true) := by
  obtain ⟨before, hbefore, hrun, hfits⟩ :=
    addRequest_tokens target state event outcome hcell (by simp)
  rw [hrun, runAll_addRawTokens_reported, hbefore]
  exact ⟨rfl, fun h => hbefore ▸ fits_addRawTokens_reported (hfits h)⟩

variable (target state) in
theorem addRequest_estimated (event : RequestCompletedEvent) (outcome : Outcome)
    {cell : EstimatedField} (hcell : .estimated .requestTokens cell ∈ windowFields) :
    ((addRequest target event outcome).runAll state
          (target, .estimated .requestTokens cell)).toTokenCell
        = (addRawTokenCell (event.tokens.estimated cell) event.endedAt
            (state (target, .estimated .requestTokens cell)).toTokenCell).1
      ∧ ((target, .estimated .requestTokens cell)
          ∉ (addRequest target event outcome).overflowing state →
        (addRawTokenCell (event.tokens.estimated cell) event.endedAt
          (state (target, .estimated .requestTokens cell)).toTokenCell).2 = true) := by
  obtain ⟨before, hbefore, hrun, hfits⟩ :=
    addRequest_tokens target state event outcome hcell (by simp)
  rw [hrun, runAll_addRawTokens_estimated, hbefore]
  exact ⟨rfl, fun h => hbefore ▸ fits_addRawTokens_estimated (hfits h)⟩

theorem RowRepresents.snoc {outcome : Outcome}
    {request : AppliedRequest} (h : RowRepresents (fun field => state (target, field)) requests)
    (htokens : request.tokens = event.tokens) (hfits : ∀ field ∈ windowFields,
      (target, field) ∉ (addRequest target event outcome).overflowing state) :
    RowRepresents (fun field => (addRequest target event outcome).runAll state (target, field))
      (requests ++ [request]) := by
  have hreported : ∀ cell, .reported .requestTokens cell ∈ windowFields →
      CellRepresents (state (target, .reported .requestTokens cell))
        (reportedFacts cell requests) →
      CellRepresents ((addRequest target event outcome).runAll state
        (target, .reported .requestTokens cell)) (reportedFacts cell (requests ++ [request])) := by
    intro cell hcell hrep
    obtain ⟨hrun, hok⟩ := addRequest_reported target state event outcome hcell
    rw [hrun, reportedFacts, List.map_append, List.map_singleton, htokens]
    exact hrep.addRawTokenCell (hok (hfits _ hcell))
  have hestimated : ∀ cell, .estimated .requestTokens cell ∈ windowFields →
      CellRepresents (state (target, .estimated .requestTokens cell)).toTokenCell
        (estimatedFacts cell requests) →
      CellRepresents ((addRequest target event outcome).runAll state
        (target, .estimated .requestTokens cell)).toTokenCell
        (estimatedFacts cell (requests ++ [request])) := by
    intro cell hcell hrep
    obtain ⟨hrun, hok⟩ := addRequest_estimated target state event outcome hcell
    rw [hrun, estimatedFacts, List.map_append, List.map_singleton, htokens]
    exact hrep.addRawTokenCell (hok (hfits _ hcell))
  refine ⟨?_, hreported _ (by simp [windowFields]) h.reportedInput,
    hreported _ (by simp [windowFields]) h.reportedOutput,
    hestimated _ (by simp [windowFields]) h.estimatedInput,
    hestimated _ (by simp [windowFields]) h.estimatedOutput⟩
  obtain ⟨hrun, hok⟩ := addRequest_requests target state event outcome
  obtain ⟨next, hnext⟩ := Option.isSome_iff_exists.mp (hok (hfits _ (by simp [windowFields])))
  have hcount := h.count
  show (addRequest target event outcome).runAll state (target, .counter .requests)
    = (requests ++ [request]).length
  rw [hrun, List.length_append, ← hcount]
  show (increase (state (target, .counter .requests)) 1).getD
    (state (target, .counter .requests)) = _
  rw [hnext, increase_eq_some hnext]
  rfl

end OneAddition

/-! ## The rows of a minute -/

/-- The row of a minute; one that is not there has counted nothing. -/
def MutableCell.rowOf (cell : MutableCell) (key : RowKey) : MutableAggregate :=
  fun field => cell.aggregates (.row key, field)

theorem aggregates_findRow (cell : MutableCell) (row : RowKey) (remaining : Nat) :
    (findRow cell row remaining).cell.aggregates = cell.aggregates := by
  unfold findRow
  split
  · rfl
  · rename_i hnew
    split
    · rfl
    · funext slot
      obtain ⟨place, field⟩ := slot
      cases place with
      | aggregate => rfl
      | row key =>
        simp only [MutableCell.aggregates, OrderedMap.get?_set]
        split
        · rename_i heq
          subst heq
          rw [OrderedMap.has, Bool.not_eq_true, Option.isSome_eq_false_iff] at hnew
          rw [Option.isNone_iff_eq_none.mp hnew]
          rfl
        · rfl

theorem aggregates_findAttemptRows (client : Option Text) (attempts : List AttemptPacket)
    (cell : MutableCell) (remaining : Nat) :
    (findAttemptRows client attempts cell remaining).2.1.aggregates = cell.aggregates := by
  induction attempts generalizing cell remaining with
  | nil => rfl
  | cons attempt rest ih =>
    rw [findAttemptRows, ih]
    exact aggregates_findRow cell _ remaining

theorem aggregates_findRows (cell : MutableCell) (work : TerminalWork) (remaining : Nat) :
    (findRows cell work remaining).cell.aggregates = cell.aggregates := by
  exact (aggregates_findAttemptRows _ _ _ _).trans (aggregates_findRow _ _ _)

variable {cell : MutableCell} {key : RowKey} {remaining : Nat} {work : TerminalWork}

theorem row_findRow {row : RowKey} (h : (findRow cell row remaining).row = some key) :
    key = row := by
  unfold findRow at h
  split at h
  · exact (Option.some.inj h).symm
  · split at h
    · cases h
    · exact (Option.some.inj h).symm

theorem kind_findAttemptRows {client : Option Text} {attempts : List AttemptPacket} :
    ∀ found ∈ (findAttemptRows client attempts cell remaining).1, ∀ key, found.2 = some key →
      key.kind = .attempt := by
  induction attempts generalizing cell remaining with
  | nil => exact fun found hin => absurd hin List.not_mem_nil
  | cons attempt rest ih =>
    intro found hin key hkey
    rw [findAttemptRows, List.mem_cons] at hin
    rcases hin with rfl | hin
    · rw [row_findRow hkey]
      rfl
    · exact ih found hin key hkey

theorem not_mem_slots_addAttempts {field : AggregateField} (hkind : key.kind = .request) :
    (.row key, field) ∉ (addAttempts (findRows cell work remaining).attempts).slots := by
  intro hin
  rcases place_of_addAttempts hin with h | ⟨found, hfound, key', hkey', h⟩
  · cases h
  · cases h
    have hattempt := kind_findAttemptRows found hfound key hkey'
    rw [hkind] at hattempt
    cases hattempt

theorem row_findRows (h : (findRows cell work remaining).request = some key) :
    key = work.requestRow :=
  row_findRow h

theorem rowOf_foldCell_of_ne (hkind : key.kind = .request) (hne : key ≠ work.requestRow) :
    (foldCell cell work remaining).1.rowOf key = cell.rowOf key := by
  funext field
  unfold MutableCell.rowOf
  rw [aggregates_foldCell, Chain.run_of_not_mem_slots, aggregates_findRows]
  intro hin
  unfold FoundRows.chain cellChain at hin
  rw [Chain.slots, List.mem_append] at hin
  rcases hin with hin | hin
  · cases place_of_addRequest hin
  · cases hrow : (findRows cell work remaining).request with
    | none =>
      rw [hrow] at hin
      exact not_mem_slots_addAttempts hkind hin
    | some row =>
      rw [hrow] at hin
      simp only [Chain.slots, List.mem_append] at hin
      rcases hin with hin | hin
      · cases place_of_addRequest hin
        exact hne (row_findRows hrow)
      · exact not_mem_slots_addAttempts hkind hin

/-- The row of the request is found or made, and none of the counts that the usage window
reads overflows in it or stands behind an overflow. -/
structure Counted (cell : MutableCell) (work : TerminalWork) (remaining : Nat) : Prop where
  row : (findRows cell work remaining).request.isSome = true
  made : ∀ field ∈ windowFields,
    (.row work.requestRow, field) ∉ cellSkipped cell work remaining
  fits : ∀ field ∈ windowFields,
    (.row work.requestRow, field) ∉ cellOverflows cell work remaining

theorem rowRepresents_foldCell (hkind : work.requestRow.kind = .request)
    (hcounted : Counted cell work remaining)
    {request : AppliedRequest} (h : RowRepresents (cell.rowOf work.requestRow) requests)
    (htokens : request.tokens = work.event.tokens) :
    RowRepresents ((foldCell cell work remaining).1.rowOf work.requestRow)
      (requests ++ [request]) := by
  obtain ⟨row, hrow⟩ := Option.isSome_iff_exists.mp hcounted.row
  obtain rfl := row_findRows hrow
  have hchain : (findRows cell work remaining).chain work
      = .call (addRequest .aggregate work.event work.outcome)
          (.call (addRequest (.row work.requestRow) work.event work.outcome)
            (addAttempts (findRows cell work remaining).attempts)) := by
    unfold FoundRows.chain cellChain
    rw [hrow]
  -- the row as it stands when its turn comes
  have hbefore : ∀ field,
      (addRequest CellPlace.aggregate work.event work.outcome).runAll cell.aggregates
          (.row work.requestRow, field)
        = cell.aggregates (.row work.requestRow, field) := by
    intro field
    refine Chain.runAll_of_not_mem_slots fun hin => ?_
    cases place_of_addRequest hin
  have hadded : RowRepresents
      (fun field => (addRequest (CellPlace.row work.requestRow) work.event work.outcome).runAll
        ((addRequest CellPlace.aggregate work.event work.outcome).runAll cell.aggregates)
        (.row work.requestRow, field))
      (requests ++ [request]) := by
    refine RowRepresents.snoc (by simp only [hbefore]; exact h) htokens ?_
    intro field hfield hin
    refine hcounted.fits field hfield ?_
    rw [cellOverflows, hchain, aggregates_findRows, Chain.overflowing, Chain.overflowing,
      List.mem_append, List.mem_append]
    exact .inr (.inl hin)
  refine hadded.congr fun field hfield => ?_
  have hnot : (.row work.requestRow, field)
      ∉ (addAttempts (findRows cell work remaining).attempts).slots :=
    not_mem_slots_addAttempts hkind
  have hmade := hcounted.made field hfield
  unfold MutableCell.rowOf
  rw [aggregates_foldCell, Chain.run_of_not_mem_skipped hmade, hchain, aggregates_findRows,
    Chain.runAll, Chain.runAll, Chain.runAll_of_not_mem_slots hnot]

/-! ## The rows of a day -/

/-- A row of a day; one that is not there has counted nothing. -/
def MutableDay.rowOf (day : MutableDay) (minute : Text) (key : RowKey) : MutableAggregate :=
  (cellFor day minute).rowOf key

/-- The requests of one minute and row. -/
def requestsOf (minute : Text) (key : RowKey) (requests : List AppliedRequest) :
    List AppliedRequest :=
  requests.filter fun request => decide (request.minute = minute ∧ request.row = key)

theorem requestsOf_snoc (minute : Text) (key : RowKey) (requests : List AppliedRequest)
    (request : AppliedRequest) :
    requestsOf minute key (requests ++ [request])
      = if request.minute = minute ∧ request.row = key then
          requestsOf minute key requests ++ [request]
        else requestsOf minute key requests := by
  unfold requestsOf
  rw [List.filter_append]
  split
  · rename_i h
    rw [List.filter_cons_of_pos (by simpa using h), List.filter_nil]
  · rename_i h
    rw [List.filter_cons_of_neg (by simpa using h), List.filter_nil, List.append_nil]

/-- The request rows of the day have counted exactly these requests. -/
def DayRepresents (day : MutableDay) (requests : List AppliedRequest) : Prop :=
  ∀ minute key, key.kind = .request →
    RowRepresents (day.rowOf minute key) (requestsOf minute key requests)

theorem DayRepresents.empty : DayRepresents emptyDay [] :=
  fun _ _ _ => RowRepresents.empty

/-- The row of the request takes part in the fold into the day. -/
def CountedIn (day : MutableDay) (request : TerminalRequest) : Prop :=
  Counted (cellFor day request.minute) request.work (rowBudget day)

theorem cellFor_applyToDay (dedupLimit : Nat) (day : MutableDay) (request : TerminalRequest)
    (minute : Text) :
    cellFor (applyToDay dedupLimit day request) minute
      = if request.minute = minute then
          (foldCell (cellFor day request.minute) request.work (rowBudget day)).1
        else cellFor day minute := by
  unfold cellFor applyToDay
  rw [OrderedMap.get?_set]
  split <;> rfl

/-- **One more request in a day**: it shows in its row and in no other. -/
theorem DayRepresents.applyToDay {day : MutableDay}
    (h : DayRepresents day requests) (dedupLimit : Nat) {request : TerminalRequest}
    (hcounted : CountedIn day request) :
    DayRepresents (applyToDay dedupLimit day request) (requests ++ [request.applied]) := by
  intro minute key hkind
  unfold MutableDay.rowOf
  rw [cellFor_applyToDay, requestsOf_snoc]
  by_cases hminute : request.minute = minute
  · subst hminute
    rw [if_pos rfl]
    by_cases hkey : request.row = key
    · subst hkey
      rw [if_pos ⟨rfl, rfl⟩]
      change Counted (cellFor day request.minute) request.work (rowBudget day) at hcounted
      exact rowRepresents_foldCell hkind hcounted (h _ _ hkind) rfl
    · rw [if_neg fun h => hkey h.2, rowOf_foldCell_of_ne hkind (Ne.symm hkey)]
      exact h _ _ hkind
  · rw [if_neg hminute, if_neg fun h => hminute h.1]
    exact h _ _ hkind

end LlmRelay.Accounting
