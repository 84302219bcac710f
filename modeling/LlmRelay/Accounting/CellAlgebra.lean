import LlmRelay.Accounting.Cells
import Mathlib.Data.List.Perm.Basic

/-!
# Sums that a token cell keeps

A token cell takes observations one after another: facts of requests, by `addRawTokenCell`, or the
cells of attempts, by `addAggregateTokenCell` (`accounting-store.ts`). What it says of the sum is a
tally of what each observation says of it.

## Main definitions

* `Token`, `Tally`: what an observation says of the sum, and what is known of it so far;
* `foldRaw`, `foldAggregate`: the cell after a sequence of observations;
* `ExactInAnyOrder`: the cell holds the exact sum, whatever the order of the observations.

## Main results

* `foldRaw_represents`, `foldAggregate_represents`: the cell refines the tally;
* `represented_exact_iff`, `tokenCell_exact_iff`: when the order does not matter.
-/

namespace LlmRelay.Accounting

open Ecma

/-! ## Tallies -/

/-- What an observation says of the sum. -/
inductive Token where
  | counted (n : Nat)
  | nothing
  | uncertain
  deriving DecidableEq

/-- What is known of the sum. -/
inductive Reading where
  | fresh
  | exact (sum : Nat)
  | gone
  deriving DecidableEq

def Reading.value : Reading → Option Nat
  | exact sum => some sum
  | _ => none

/-- A reading, and whether it is gone because the sum was too large. -/
structure Tally where
  reading : Reading
  spilled : Bool
  deriving DecidableEq

/-- One more observation. An observation of nothing ends a reading, if there is one. -/
def Tally.note (tally : Tally) (token : Token) : Tally :=
  match tally.reading, token with
  | .fresh, .counted n => { tally with reading := .exact n }
  | .fresh, .nothing => tally
  | .exact sum, .counted n =>
    if maxSafeInteger - n < sum then ⟨.gone, true⟩ else { tally with reading := .exact (sum + n) }
  | _, _ => { tally with reading := .gone }

def tallyOf (tokens : List Token) : Tally :=
  tokens.foldl Tally.note ⟨.fresh, false⟩

def Token.amount : Token → Nat
  | counted n => n
  | _ => 0

/-- The sum of what is counted. -/
def total (tokens : List Token) : Nat :=
  (tokens.map Token.amount).sum

theorem total_append (tokens others : List Token) :
    total (tokens ++ others) = total tokens + total others := by
  rw [total, List.map_append, List.sum_append]
  rfl

variable {tokens others : List Token}

theorem total_eq_of_perm (h : tokens.Perm others) : total tokens = total others :=
  (h.map _).sum_nat

def Token.isCounted : Token → Bool
  | counted _ => true
  | _ => false

/-- The sum, where something is counted, nothing is uncertain and the sum is not too large. -/
def expectedValue (tokens : List Token) : Option Nat :=
  if tokens.any Token.isCounted ∧ Token.uncertain ∉ tokens ∧ total tokens ≤ maxSafeInteger then
    some (total tokens)
  else none

theorem note_exact_counted (sum n : Nat) (spilled : Bool) :
    Tally.note ⟨.exact sum, spilled⟩ (.counted n)
      = if maxSafeInteger - n < sum then ⟨.gone, true⟩ else ⟨.exact (sum + n), spilled⟩ :=
  rfl

theorem foldl_note_gone (tokens : List Token) (spilled : Bool) :
    tokens.foldl Tally.note ⟨.gone, spilled⟩ = ⟨.gone, spilled⟩ := by
  induction tokens with
  | nil => rfl
  | cons token tokens ih => exact ih

theorem note_uncertain (tally : Tally) : tally.note .uncertain = ⟨.gone, tally.spilled⟩ := by
  rcases tally with ⟨_ | _ | _, _⟩ <;> rfl

theorem foldl_note_uncertain (h : Token.uncertain ∈ tokens) (tally : Tally) :
    (tokens.foldl Tally.note tally).reading = .gone := by
  obtain ⟨before, after, rfl⟩ := List.append_of_mem h
  rw [List.foldl_append, List.foldl_cons, note_uncertain, foldl_note_gone]

/-- **Counted observations only.** -/
theorem tallyOf_counted {ns : List Nat} (hsafe : ∀ n ∈ ns, n ≤ maxSafeInteger) (hne : ns ≠ []) :
    tallyOf (ns.map .counted)
      = if ns.sum ≤ maxSafeInteger then ⟨.exact ns.sum, false⟩ else ⟨.gone, true⟩ := by
  induction ns using List.reverseRecOn with
  | nil => exact absurd rfl hne
  | append_singleton ns n ih =>
    have hn : n ≤ maxSafeInteger := hsafe n (by simp)
    rw [tallyOf, List.map_append, List.foldl_append, List.sum_append, List.sum_singleton]
    change Tally.note (tallyOf (ns.map .counted)) (.counted n) = _
    by_cases hnil : ns = []
    · subst hnil
      rw [List.sum_nil, Nat.zero_add, if_pos hn]
      rfl
    · rw [ih (fun m hm => hsafe m (List.mem_append_left _ hm)) hnil]
      by_cases hsum : ns.sum ≤ maxSafeInteger
      · rw [if_pos hsum]
        change (if maxSafeInteger - n < ns.sum then _ else _) = _
        by_cases hfits : ns.sum + n ≤ maxSafeInteger
        · rw [if_pos hfits, if_neg (by omega)]
        · rw [if_neg hfits, if_pos (by omega)]
      · rw [if_neg hsum, if_neg (by omega)]
        rfl

theorem total_singleton (token : Token) : total [token] = token.amount :=
  Nat.add_zero _

theorem tallyOf_concat (tokens : List Token) (token : Token) :
    tallyOf (tokens ++ [token]) = (tallyOf tokens).note token := by
  rw [tallyOf, List.foldl_append]
  rfl

/-- **What a reading tells** of the observations so far. -/
theorem tallyOf_reading (tokens : List Token) :
    match (tallyOf tokens).reading with
    | .fresh => (tallyOf tokens).spilled = false ∧ ∀ token ∈ tokens, token = .nothing
    | .exact sum => (tallyOf tokens).spilled = false ∧ sum = total tokens ∧
        Token.uncertain ∉ tokens ∧ ∃ token ∈ tokens, token.isCounted = true
    | .gone => (tallyOf tokens).spilled = true ∨ Token.uncertain ∈ tokens ∨
        ∃ token ∈ tokens, token.isCounted = true := by
  induction tokens using List.reverseRecOn with
  | nil => exact ⟨rfl, fun _ h => by cases h⟩
  | append_singleton tokens token ih =>
    rw [tallyOf_concat]
    rcases htally : tallyOf tokens with ⟨reading, spilled⟩
    rw [htally] at ih
    rcases reading with _ | sum | _
    · obtain ⟨hspilled, hnothing⟩ := ih
      cases token with
      | counted n =>
        have hzero : total tokens = 0 := by
          rw [total, List.sum_eq_zero_iff_forall_eq_nat]
          rintro amount hamount
          obtain ⟨token, htoken, rfl⟩ := List.mem_map.mp hamount
          rw [hnothing token htoken]
          rfl
        refine ⟨hspilled, ?_, ?_, .counted n, by simp, rfl⟩
        · rw [total_append, hzero, Nat.zero_add]
          rfl
        · intro h
          rcases List.mem_append.mp h with h | h
          · cases hnothing _ h
          · cases List.mem_singleton.mp h
      | nothing =>
        refine ⟨hspilled, fun token h => ?_⟩
        rcases List.mem_append.mp h with h | h
        · exact hnothing token h
        · exact List.mem_singleton.mp h
      | uncertain => exact .inr (.inl (by simp))
    · obtain ⟨hspilled, hsum, hcertain, counted, hcounted, hmatch⟩ := ih
      cases token with
      | counted n =>
        rw [note_exact_counted]
        by_cases hlarge : maxSafeInteger - n < sum
        · rw [if_pos hlarge]
          exact .inl rfl
        · rw [if_neg hlarge]
          refine ⟨hspilled, ?_, ?_, .counted n, by simp, rfl⟩
          · rw [total_append, ← hsum]
            rfl
          · intro h
            rcases List.mem_append.mp h with h | h
            · exact hcertain h
            · cases List.mem_singleton.mp h
      | nothing =>
        exact .inr (.inr ⟨counted, List.mem_append_left _ hcounted, hmatch⟩)
      | uncertain => exact .inr (.inl (by simp))
    · refine ih.imp_right (Or.imp (List.mem_append_left _) ?_)
      rintro ⟨counted, hcounted, hmatch⟩
      exact ⟨counted, List.mem_append_left _ hcounted, hmatch⟩

theorem spilled_of_le (h : total tokens ≤ maxSafeInteger) : (tallyOf tokens).spilled = false := by
  induction tokens using List.reverseRecOn with
  | nil => rfl
  | append_singleton tokens token ih =>
    rw [total_append, total_singleton] at h
    have hspilled := ih (by omega)
    have hreading := tallyOf_reading tokens
    rw [tallyOf_concat]
    rcases htally : tallyOf tokens with ⟨reading, spilled⟩
    rw [htally] at hspilled hreading
    rcases reading with _ | sum | _ <;> cases token <;> try exact hspilled
    rename_i n
    rw [Token.amount] at h
    rw [note_exact_counted, if_neg (by omega)]
    exact hspilled

/-! ## Orders that do not matter -/

/-- The tally of the observations, in whatever order they come. -/
def Settled (tokens : List Token) : Prop :=
  (∀ token ∈ tokens, token.isCounted = true) ∨
    total tokens ≤ maxSafeInteger ∧
      (Token.nothing ∉ tokens ∨ Token.uncertain ∈ tokens ∨ ∀ token ∈ tokens, token.isCounted = false)

theorem Settled.of_perm (h : Settled tokens) (hperm : others.Perm tokens) : Settled others := by
  rw [Settled, total_eq_of_perm hperm]
  simpa only [Settled, hperm.mem_iff] using h

theorem expectedValue_of_perm (hperm : others.Perm tokens) :
    expectedValue others = expectedValue tokens := by
  rw [expectedValue, expectedValue, total_eq_of_perm hperm, hperm.any_eq]
  simp only [hperm.mem_iff]

theorem eq_map_counted (h : ∀ token ∈ tokens, token.isCounted = true) :
    tokens = (tokens.map Token.amount).map .counted := by
  induction tokens with
  | nil => rfl
  | cons token tokens ih =>
    obtain ⟨htoken, hrest⟩ := List.forall_mem_cons.mp h
    rw [List.map_cons, List.map_cons, ← ih hrest]
    cases token with
    | counted n => rfl
    | nothing => cases htoken
    | uncertain => cases htoken

theorem tallyOf_nothing (h : ∀ token ∈ tokens, token = .nothing) :
    tallyOf tokens = ⟨.fresh, false⟩ := by
  induction tokens with
  | nil => rfl
  | cons token tokens ih =>
    obtain ⟨rfl, hrest⟩ := List.forall_mem_cons.mp h
    exact ih hrest

/-- **A settled tally** has the expected value, and is spilled when the sum is too large. -/
theorem Settled.tally (h : Settled tokens)
    (hsafe : ∀ token ∈ tokens, token.amount ≤ maxSafeInteger) :
    (tallyOf tokens).reading.value = expectedValue tokens ∧
      (tallyOf tokens).spilled = decide (maxSafeInteger < total tokens) := by
  by_cases hcounted : ∀ token ∈ tokens, token.isCounted = true
  · by_cases hne : tokens = []
    · subst hne
      exact ⟨rfl, rfl⟩
    · have hcertain : Token.uncertain ∉ tokens := fun h => by cases hcounted _ h
      have hany : tokens.any Token.isCounted = true := by
        obtain ⟨token, htoken⟩ := List.exists_mem_of_ne_nil tokens hne
        exact List.any_eq_true.mpr ⟨token, htoken, hcounted token htoken⟩
      rw [expectedValue, eq_map_counted hcounted, tallyOf_counted (List.forall_mem_map.mpr hsafe)
        (by simpa using hne), ← eq_map_counted hcounted, ← total]
      by_cases hsum : total tokens ≤ maxSafeInteger
      · rw [if_pos hsum, if_pos ⟨hany, hcertain, hsum⟩, decide_eq_false (by omega)]
        exact ⟨rfl, rfl⟩
      · rw [if_neg hsum, if_neg fun h => hsum h.2.2, decide_eq_true (by omega)]
        exact ⟨rfl, rfl⟩
  · obtain ⟨hsum, hrest⟩ := h.resolve_left hcounted
    refine ⟨?_, by rw [spilled_of_le hsum, decide_eq_false (by omega)]⟩
    by_cases huncertain : Token.uncertain ∈ tokens
    · rw [expectedValue, if_neg fun h => h.2.1 huncertain, tallyOf, foldl_note_uncertain huncertain]
      rfl
    · have hnone : ∀ token ∈ tokens, token = .nothing := by
        rcases hrest with hnothing | h | hnone
        · refine absurd (fun token htoken => ?_) hcounted
          cases token with
          | counted n => rfl
          | nothing => exact absurd htoken hnothing
          | uncertain => exact absurd htoken huncertain
        · exact absurd h huncertain
        · intro token htoken
          cases token with
          | counted n => cases hnone _ htoken
          | nothing => rfl
          | uncertain => exact absurd htoken huncertain
      have hany : ¬ tokens.any Token.isCounted = true := by
        rw [List.any_eq_true]
        rintro ⟨token, htoken, hcounted⟩
        rw [hnone token htoken] at hcounted
        cases hcounted
      rw [expectedValue, if_neg fun h => hany h.1, tallyOf_nothing hnone]
      rfl

/-! ## What a cell stands for -/

/-- `isAggregateTokenCell` of a cell whose counters are counters and whose time is one. -/
def isAggregateTokenCell (cell : TokenCell) : Bool :=
  cell.value.all isSafeNat && isSafeNat cell.known && isSafeNat cell.unknown && isSafeNat cell.lost
    && !(cell.value.isSome && (decide (cell.known = 0) || cell.uncertain))
    && !(cell.value.isNone && decide (cell.known > 0) && !cell.uncertain)
    && !(decide (cell.known = 0) && cell.observedAt.isSome)
    && !(decide (cell.known > 0) && cell.observedAt.isNone)

/-- What the observation that is kept in a cell says of the sum. -/
def TokenCell.token (cell : TokenCell) : Token :=
  if cell.uncertain then .uncertain
  else match cell.value with
    | some value => .counted value
    | none => .nothing

/-- A cell that has taken the observations: all but its value and its overflow are counts.
A sum that spills loses `k` observations. -/
def represented (k : Nat) (cells : List TokenCell) : TokenCell :=
  let tally := tallyOf (cells.map TokenCell.token)
  { value := tally.reading.value
    known := (cells.map TokenCell.known).sum
    unknown := (cells.map TokenCell.unknown).sum
    lost := (cells.map TokenCell.lost).sum + if tally.spilled then k else 0
    overflow := (cells.any TokenCell.overflow) || tally.spilled
    observedAt := (cells.map TokenCell.observedAt).foldl latest none }

/-- The counts are below the largest safe integer. -/
structure Fits (cells : List TokenCell) : Prop where
  known : (cells.map TokenCell.known).sum ≤ maxSafeInteger
  unknown : (cells.map TokenCell.unknown).sum ≤ maxSafeInteger
  lost : (cells.map TokenCell.lost).sum ≤ maxSafeInteger

theorem increase_of_le {current amount : Nat} (h : current + amount ≤ maxSafeInteger) :
    increase current amount = some (current + amount) := by
  rw [increase, if_pos]
  simp only [isSafeNat, Bool.and_eq_true, decide_eq_true_eq]
  omega

variable {cell : TokenCell}

theorem uncertain_eq_false (h : cell.uncertain = false) :
    cell.unknown = 0 ∧ cell.lost = 0 ∧ cell.overflow = false := by
  simp only [TokenCell.uncertain, Bool.or_eq_false_iff, decide_eq_false_iff_not] at h
  exact ⟨by omega, by omega, h.2⟩

section

variable {cell : TokenCell} (hvalid : isAggregateTokenCell cell = true)

include hvalid

theorem known_pos_of_token {n : Nat} (h : cell.token = .counted n) :
    0 < cell.known ∧ cell.value = some n ∧ cell.uncertain = false ∧ n ≤ maxSafeInteger := by
  rw [TokenCell.token] at h
  split at h
  · cases h
  · rename_i hcertain
    split at h
    · rename_i value hvalue
      cases h
      simp only [isAggregateTokenCell, hvalue, Bool.and_eq_true, Option.all_some, isSafeNat,
        decide_eq_true_eq] at hvalid
      have hknown := hvalid.1.1.1.2
      simp only [Option.isSome_some, Bool.true_and, Bool.not_eq_true', Bool.or_eq_false_iff,
        decide_eq_false_iff_not] at hknown
      exact ⟨by omega, hvalue, hknown.2, hvalid.1.1.1.1.1.1.1⟩
    · cases h

theorem eq_zero_of_token (h : cell.token = .nothing) :
    cell.known = 0 ∧ cell.value = none ∧ cell.uncertain = false := by
  rw [TokenCell.token] at h
  split at h
  · cases h
  · rename_i hcertain
    rw [Bool.not_eq_true] at hcertain
    split at h
    · cases h
    · rename_i hvalue
      simp only [isAggregateTokenCell, hvalue, hcertain, Bool.and_eq_true] at hvalid
      have hknown := hvalid.1.1.2
      simp only [Option.isNone_none, Bool.true_and, Bool.not_false, Bool.and_true,
        Bool.not_eq_true', decide_eq_false_iff_not] at hknown
      exact ⟨by omega, hvalue, hcertain⟩

end

theorem token_eq_uncertain_iff : cell.token = .uncertain ↔ cell.uncertain = true := by
  rw [TokenCell.token]
  split
  · simp_all
  · split <;> simp_all

/-! ## The folds represent what they have taken -/

theorem represented_concat (k : Nat) (cells : List TokenCell) (cell : TokenCell) :
    represented k (cells ++ [cell])
      = { value := ((tallyOf (cells.map TokenCell.token)).note cell.token).reading.value
          known := (cells.map TokenCell.known).sum + cell.known
          unknown := (cells.map TokenCell.unknown).sum + cell.unknown
          lost := (cells.map TokenCell.lost).sum + cell.lost
            + if ((tallyOf (cells.map TokenCell.token)).note cell.token).spilled then k else 0
          overflow := cells.any TokenCell.overflow || cell.overflow
            || ((tallyOf (cells.map TokenCell.token)).note cell.token).spilled
          observedAt := latest ((cells.map TokenCell.observedAt).foldl latest none)
            cell.observedAt } := by
  simp only [represented, List.map_append, List.map_singleton, tallyOf_concat, List.sum_append,
    List.sum_singleton, List.any_append, List.any_cons, List.any_nil, Bool.or_false,
    List.foldl_append, List.foldl_cons, List.foldl_nil]

theorem sum_map_pos {α : Type} {f : α → Nat} {l : List α} :
    0 < (l.map f).sum ↔ ∃ a ∈ l, 0 < f a := by
  rw [List.sum_pos_iff_exists_pos_nat]
  simp

variable {k : Nat} {cells : List TokenCell}

theorem represented_uncertain :
    (represented k cells).uncertain = true ↔ Token.uncertain ∈ cells.map TokenCell.token ∨
      (tallyOf (cells.map TokenCell.token)).spilled = true := by
  have hcells : Token.uncertain ∈ cells.map TokenCell.token ↔
      ∃ cell ∈ cells, cell.uncertain = true := by
    simp only [List.mem_map, token_eq_uncertain_iff]
  rw [hcells]
  cases hspilled : (tallyOf (cells.map TokenCell.token)).spilled with
  | true => simp [represented, TokenCell.uncertain, hspilled]
  | false =>
    simp only [represented, TokenCell.uncertain, hspilled, Bool.false_eq_true, if_false,
      Nat.add_zero, or_false, Bool.or_eq_true, decide_eq_true_eq,
      sum_map_pos, List.any_eq_true, exists_or, and_or_left]

variable (hvalid : ∀ cell ∈ cells, isAggregateTokenCell cell = true)

include hvalid

theorem reading_eq_fresh
    (hknown : (represented k cells).known = 0) (hcertain : (represented k cells).uncertain = false) :
    (tallyOf (cells.map TokenCell.token)).reading = .fresh := by
  have hcounted : ¬ ∃ token ∈ cells.map TokenCell.token, token.isCounted = true := by
    rintro ⟨token, htoken, hcounted⟩
    obtain ⟨cell, hcell, rfl⟩ := List.mem_map.mp htoken
    cases hn : cell.token with
    | counted n =>
      have hpos := sum_map_pos.mpr ⟨cell, hcell, (known_pos_of_token (hvalid cell hcell) hn).1⟩
      change (cells.map TokenCell.known).sum = 0 at hknown
      omega
    | nothing => rw [hn] at hcounted; cases hcounted
    | uncertain => rw [hn] at hcounted; cases hcounted
  have hnot := mt represented_uncertain.mpr (Bool.eq_false_iff.mp hcertain)
  have hreading := tallyOf_reading (cells.map TokenCell.token)
  cases h : (tallyOf (cells.map TokenCell.token)).reading with
  | fresh => rfl
  | exact sum =>
    rw [h] at hreading
    exact absurd hreading.2.2.2 hcounted
  | gone =>
    rw [h] at hreading
    rcases hreading with hspilled | huncertain | hexists
    · exact absurd (.inr hspilled) hnot
    · exact absurd (.inl huncertain) hnot
    · exact absurd hexists hcounted

theorem of_reading_exact {sum : Nat}
    (h : (tallyOf (cells.map TokenCell.token)).reading = .exact sum) :
    0 < (represented k cells).known ∧ (represented k cells).uncertain = false ∧
      (tallyOf (cells.map TokenCell.token)).spilled = false := by
  have hreading := tallyOf_reading (cells.map TokenCell.token)
  rw [h] at hreading
  obtain ⟨hspilled, -, hcertain, token, htoken, hcounted⟩ := hreading
  obtain ⟨cell, hcell, rfl⟩ := List.mem_map.mp htoken
  refine ⟨?_, ?_, hspilled⟩
  · cases hn : cell.token with
    | counted n =>
      exact sum_map_pos.mpr ⟨cell, hcell, (known_pos_of_token (hvalid cell hcell) hn).1⟩
    | nothing => rw [hn] at hcounted; cases hcounted
    | uncertain => rw [hn] at hcounted; cases hcounted
  · rw [Bool.eq_false_iff, Ne, represented_uncertain]
    rintro (huncertain | hspilled')
    · exact hcertain huncertain
    · rw [hspilled] at hspilled'
      cases hspilled'

theorem of_reading_fresh (h : (tallyOf (cells.map TokenCell.token)).reading = .fresh) :
    (represented k cells).known = 0 ∧ (represented k cells).uncertain = false ∧
      (tallyOf (cells.map TokenCell.token)).spilled = false := by
  have hreading := tallyOf_reading (cells.map TokenCell.token)
  rw [h] at hreading
  obtain ⟨hspilled, hnothing⟩ := hreading
  refine ⟨?_, ?_, hspilled⟩
  · refine Nat.eq_zero_of_not_pos fun hpos => ?_
    obtain ⟨cell, hcell, hknown⟩ := sum_map_pos.mp hpos
    have := (eq_zero_of_token (hvalid cell hcell) (hnothing _ (List.mem_map_of_mem hcell))).1
    omega
  · rw [Bool.eq_false_iff, Ne, represented_uncertain]
    rintro (huncertain | hspilled')
    · cases hnothing _ huncertain
    · rw [hspilled] at hspilled'
      cases hspilled'

omit hvalid

theorem value_eq_none_of_uncertain (hvalid : isAggregateTokenCell cell = true)
    (h : cell.uncertain = true) : cell.value = none := by
  cases hvalue : cell.value with
  | none => rfl
  | some value => simp [isAggregateTokenCell, hvalue, h] at hvalid

/-- What an addition leaves of the counts, where they fit. -/
def addedCounts (source target : TokenCell) (value : Option Nat) (overflow : Bool) : TokenCell where
  value := value
  known := target.known + source.known
  unknown := target.unknown + source.unknown
  lost := target.lost + source.lost
  overflow := overflow
  observedAt := latest target.observedAt source.observedAt

/-- The counts of both cells fit into one. -/
structure FitsInto (source target : TokenCell) : Prop where
  known : target.known + source.known ≤ maxSafeInteger
  unknown : target.unknown + source.unknown ≤ maxSafeInteger
  lost : target.lost + source.lost ≤ maxSafeInteger

section

variable {source target : TokenCell} (hfits : FitsInto source target)

include hfits

theorem addAggregateTokenCell_fresh (hknown : target.known = 0) (htarget : target.uncertain = false)
    (hsource : source.uncertain = false) :
    (addAggregateTokenCell source target).1 = addedCounts source target source.value false := by
  obtain ⟨hunknown, hlost, hoverflow⟩ := uncertain_eq_false htarget
  obtain ⟨hunknown', hlost', hoverflow'⟩ := uncertain_eq_false hsource
  unfold addAggregateTokenCell
  rw [increase_of_le hfits.known, increase_of_le hfits.unknown, increase_of_le hfits.lost]
  simp [hknown, addedCounts, TokenCell.uncertain, hunknown, hlost, hoverflow, hunknown', hlost',
    hoverflow']

theorem addAggregateTokenCell_gone
    (h : target.known ≠ 0 ∨ target.uncertain = true ∨ source.uncertain = true)
    (hvalue : target.value = none ∨ source.value = none) :
    (addAggregateTokenCell source target).1
      = addedCounts source target none (target.overflow || source.overflow) := by
  have hnot : ¬ (target.known = 0 ∧ target.uncertain = false ∧ source.uncertain = false) := by
    rintro ⟨hknown, htarget, hsource⟩
    simp [hknown, htarget, hsource] at h
  unfold addAggregateTokenCell
  rw [increase_of_le hfits.known, increase_of_le hfits.unknown, increase_of_le hfits.lost]
  dsimp only
  rw [if_neg hnot, if_pos (hvalue.imp_right .inl)]
  rcases hvalue with hvalue | hvalue
  · rw [hvalue]
    cases source.value <;> (dsimp only; split <;> simp [addedCounts])
  · rw [hvalue]
    cases target.value <;> (dsimp only; split <;> simp [addedCounts])

theorem addAggregateTokenCell_both {sum value : Nat} (hknown : target.known ≠ 0)
    (htarget : target.uncertain = false) (hsource : source.uncertain = false)
    (hsum : target.value = some sum) (hvalue : source.value = some value) :
    (addAggregateTokenCell source target).1
      = if maxSafeInteger - value < sum then addedCounts source target none true
        else addedCounts source target (some (sum + value)) false := by
  obtain ⟨hunknown, hlost, hoverflow⟩ := uncertain_eq_false htarget
  obtain ⟨hunknown', hlost', hoverflow'⟩ := uncertain_eq_false hsource
  unfold addAggregateTokenCell
  rw [increase_of_le hfits.known, increase_of_le hfits.unknown, increase_of_le hfits.lost]
  have hnot : ¬ (target.known = 0 ∧ target.uncertain = false ∧ source.uncertain = false) :=
    fun h => hknown h.1
  dsimp only
  rw [if_neg hnot, hsum, hvalue]
  by_cases hlarge : maxSafeInteger - value < sum
  · rw [if_pos hlarge]
    simp [hlarge, addedCounts]
  · rw [if_neg hlarge]
    simp [hlarge, addedCounts, TokenCell.uncertain, hunknown, hlost, hoverflow, hunknown', hlost',
      hoverflow']

end

variable {k : Nat} {cells : List TokenCell}

theorem represented_concat_of_not_spilled {reading : Reading} {spilled : Bool}
    (htally : tallyOf (cells.map TokenCell.token) = ⟨reading, spilled⟩) {r : Reading}
    (hnote : Tally.note ⟨reading, spilled⟩ cell.token = ⟨r, spilled⟩) :
    represented k (cells ++ [cell]) = addedCounts cell (represented k cells) r.value
      ((represented k cells).overflow || cell.overflow) := by
  rw [represented_concat, htally, hnote]
  simp only [represented, addedCounts, htally, TokenCell.mk.injEq, true_and, and_true]
  refine ⟨by omega, ?_⟩
  rw [Bool.or_assoc, Bool.or_assoc, Bool.or_comm spilled]

/-- **A cell of an attempt** in a cell that represents. -/
theorem addAggregateTokenCell_represented {source : TokenCell}
    (hvalid : ∀ cell ∈ cells, isAggregateTokenCell cell = true)
    (hsource : isAggregateTokenCell source = true) (hfits : Fits (cells ++ [source])) :
    (addAggregateTokenCell source (represented 0 cells)).1 = represented 0 (cells ++ [source]) := by
  have hlost : (represented 0 cells).lost = (cells.map TokenCell.lost).sum := by
    simp [represented]
  have hinto : FitsInto source (represented 0 cells) := by
    obtain ⟨hknown, hunknown, hlost'⟩ := hfits
    simp only [List.map_append, List.sum_append]
      at hknown hunknown hlost'
    exact ⟨hknown, hunknown, hlost ▸ hlost'⟩
  have hvalue : (represented 0 cells).value = (tallyOf (cells.map TokenCell.token)).reading.value :=
    rfl
  rcases htally : tallyOf (cells.map TokenCell.token) with ⟨_ | sum | _, spilled⟩
  · -- nothing has been counted, and the source is copied
    obtain ⟨hknown, hcertain, hspilled⟩ :=
      of_reading_fresh (k := 0) hvalid (congrArg Tally.reading htally)
    rw [htally] at hvalue hspilled
    cases htoken : source.token with
    | uncertain =>
      rw [addAggregateTokenCell_gone hinto (.inr (.inr (token_eq_uncertain_iff.mp htoken)))
        (.inl hvalue), represented_concat_of_not_spilled htally (r := .gone)]
      · rfl
      · rw [htoken]
        rfl
    | nothing =>
      obtain ⟨-, hnone, hcertain'⟩ := eq_zero_of_token hsource htoken
      rw [addAggregateTokenCell_fresh hinto hknown hcertain hcertain',
        represented_concat_of_not_spilled htally (r := .fresh) (by rw [htoken]; rfl),
        (uncertain_eq_false hcertain).2.2, (uncertain_eq_false hcertain').2.2, hnone]
      rfl
    | counted n =>
      obtain ⟨-, hn, hcertain', -⟩ := known_pos_of_token hsource htoken
      rw [addAggregateTokenCell_fresh hinto hknown hcertain hcertain',
        represented_concat_of_not_spilled htally (r := .exact n) (by rw [htoken]; rfl),
        (uncertain_eq_false hcertain).2.2, (uncertain_eq_false hcertain').2.2, hn]
      rfl
  · obtain ⟨hknown, hcertain, hspilled⟩ :=
      of_reading_exact (k := 0) hvalid (congrArg Tally.reading htally)
    rw [htally] at hvalue hspilled
    cases htoken : source.token with
    | uncertain =>
      have huncertain := token_eq_uncertain_iff.mp htoken
      rw [addAggregateTokenCell_gone hinto (.inl hknown.ne')
          (.inr (value_eq_none_of_uncertain hsource huncertain)),
        represented_concat_of_not_spilled htally (r := .gone) (by rw [htoken]; rfl)]
      rfl
    | nothing =>
      -- a source that has nothing to say ends the reading
      rw [addAggregateTokenCell_gone hinto (.inl hknown.ne')
          (.inr (eq_zero_of_token hsource htoken).2.1),
        represented_concat_of_not_spilled htally (r := .gone) (by rw [htoken]; rfl)]
      rfl
    | counted n =>
      obtain ⟨-, hn, hcertain', -⟩ := known_pos_of_token hsource htoken
      rw [addAggregateTokenCell_both hinto hknown.ne' hcertain hcertain' hvalue hn]
      by_cases hlarge : maxSafeInteger - n < sum
      · have hnote : Tally.note ⟨.exact sum, spilled⟩ source.token = ⟨.gone, true⟩ := by
          rw [htoken, note_exact_counted, if_pos hlarge]
        rw [if_pos hlarge, represented_concat, htally, hnote]
        simp [represented]
        rfl
      · have hnote : Tally.note ⟨.exact sum, spilled⟩ source.token = ⟨.exact (sum + n), spilled⟩ := by
          rw [htoken, note_exact_counted, if_neg hlarge]
        rw [if_neg hlarge, represented_concat_of_not_spilled htally hnote,
          (uncertain_eq_false hcertain).2.2, (uncertain_eq_false hcertain').2.2]
        rfl
  · rw [htally] at hvalue
    have hgone : (represented 0 cells).known ≠ 0 ∨ (represented 0 cells).uncertain = true := by
      by_contra hno
      rw [not_or, not_not, Bool.not_eq_true] at hno
      have hfresh := reading_eq_fresh hvalid hno.1 hno.2
      rw [htally] at hfresh
      cases hfresh
    rw [addAggregateTokenCell_gone hinto (hgone.imp_right .inl) (.inl hvalue),
      represented_concat_of_not_spilled htally (r := .gone) (by cases source.token <;> rfl)]
    rfl

/-- A fact of a request, with the time it is observed at where it has none. -/
structure RawObservation where
  source : SourceCell
  fallback : Text

/-- The cell that holds one observation. -/
def RawObservation.snapshot (o : RawObservation) : TokenCell :=
  (addRawTokenCell o.source o.fallback emptyTokenCell).1

theorem snapshot_unknown {o : RawObservation} (h : safeCounter o.source.value = none) :
    o.snapshot = { emptyTokenCell with unknown := 1 } := by
  rw [RawObservation.snapshot, addRawTokenCell, h]
  rfl

theorem snapshot_known {o : RawObservation} {n : Nat} (h : safeCounter o.source.value = some n) :
    o.snapshot = { emptyTokenCell with
      value := some n
      known := 1
      observedAt := some (o.source.observedAt.getD o.fallback) } := by
  rw [RawObservation.snapshot, addRawTokenCell, h]
  rfl

theorem safe_of_safeCounter {value : Option Nat} {n : Nat} (h : safeCounter value = some n) :
    n ≤ maxSafeInteger := by
  rw [safeCounter, Option.filter_eq_some_iff] at h
  exact of_decide_eq_true h.2

variable (o : RawObservation)

theorem isAggregateTokenCell_snapshot : isAggregateTokenCell o.snapshot = true := by
  cases h : safeCounter o.source.value with
  | none =>
    rw [snapshot_unknown h]
    rfl
  | some n =>
    rw [snapshot_known h]
    have hn : isSafeNat n = true := decide_eq_true (safe_of_safeCounter h)
    simp [isAggregateTokenCell, emptyTokenCell, TokenCell.uncertain, hn]
    exact ⟨rfl, rfl⟩

def RawObservation.token (o : RawObservation) : Token :=
  match safeCounter o.source.value with
  | none => .uncertain
  | some n => .counted n

theorem token_snapshot : o.snapshot.token = o.token := by
  rw [RawObservation.token]
  cases h : safeCounter o.source.value with
  | none =>
    rw [snapshot_unknown h]
    rfl
  | some n =>
    rw [snapshot_known h]
    rfl

theorem token_snapshot_ne_nothing : o.snapshot.token ≠ .nothing := by
  rw [token_snapshot, RawObservation.token]
  cases safeCounter o.source.value <;> exact fun h => by cases h

theorem lost_snapshot : o.snapshot.lost = 0 ∧ o.snapshot.overflow = false := by
  cases h : safeCounter o.source.value with
  | none =>
    rw [snapshot_unknown h]
    exact ⟨rfl, rfl⟩
  | some n =>
    rw [snapshot_known h]
    exact ⟨rfl, rfl⟩

theorem amount_token_le (hvalid : isAggregateTokenCell cell = true) :
    cell.token.amount ≤ maxSafeInteger := by
  cases h : cell.token with
  | counted n => exact (known_pos_of_token hvalid h).2.2.2
  | nothing => exact Nat.zero_le _
  | uncertain => exact Nat.zero_le _

theorem gone_cases (hsafe : ∀ token ∈ tokens, token.amount ≤ maxSafeInteger)
    (hnothing : Token.nothing ∉ tokens) (h : (tallyOf tokens).reading = .gone) :
    (tallyOf tokens).spilled = true ∨ Token.uncertain ∈ tokens := by
  by_contra hno
  rw [not_or] at hno
  have hcounted : ∀ token ∈ tokens, token.isCounted = true := by
    intro token htoken
    cases token with
    | counted n => rfl
    | nothing => exact absurd htoken hnothing
    | uncertain => exact absurd htoken hno.2
  have hne : tokens ≠ [] := by
    rintro rfl
    cases h
  have htally := tallyOf_counted (List.forall_mem_map.mpr hsafe) (by simpa using hne)
  rw [← eq_map_counted hcounted] at htally
  rw [htally] at h hno
  split_ifs at h hno with hsum
  · exact hno.1 rfl

theorem latest_none_right (left : Option Text) : latest left none = left := by
  cases left <;> rfl

theorem counts_le_length (observations : List RawObservation) :
    ((observations.map RawObservation.snapshot).map TokenCell.known).sum ≤ observations.length ∧
      ((observations.map RawObservation.snapshot).map TokenCell.unknown).sum ≤ observations.length ∧
      ((observations.map RawObservation.snapshot).map TokenCell.lost).sum = 0 := by
  induction observations with
  | nil => exact ⟨le_rfl, le_rfl, rfl⟩
  | cons o observations ih =>
    have hcounts : o.snapshot.known ≤ 1 ∧ o.snapshot.unknown ≤ 1 := by
      cases h : safeCounter o.source.value with
      | none => rw [snapshot_unknown h]; exact ⟨Nat.zero_le _, le_rfl⟩
      | some n => rw [snapshot_known h]; exact ⟨le_rfl, Nat.zero_le _⟩
    have hlost := (lost_snapshot o).1
    simp only [List.map_cons, List.sum_cons, List.length_cons]
    omega

variable {observations : List RawObservation}

/-- **A fact of a request** in a cell that represents. -/
theorem addRawTokenCell_represented (hlength : observations.length < maxSafeInteger) :
    (addRawTokenCell o.source o.fallback
        (represented 1 (observations.map RawObservation.snapshot))).1
      = represented 1 (observations.map RawObservation.snapshot ++ [o.snapshot]) := by
  obtain ⟨hknowns, hunknowns, hlosts⟩ := counts_le_length observations
  have hvalid : ∀ cell ∈ observations.map RawObservation.snapshot,
      isAggregateTokenCell cell = true :=
    List.forall_mem_map.mpr fun o _ => isAggregateTokenCell_snapshot o
  have htokens : Token.nothing ∉
      (observations.map RawObservation.snapshot).map TokenCell.token := by
    rw [List.map_map]
    intro h
    obtain ⟨o, -, ho⟩ := List.mem_map.mp h
    exact token_snapshot_ne_nothing o ho
  have hsafe : ∀ token ∈ (observations.map RawObservation.snapshot).map TokenCell.token,
      token.amount ≤ maxSafeInteger :=
    List.forall_mem_map.mpr fun cell hcell => amount_token_le (hvalid cell hcell)
  generalize observations.map RawObservation.snapshot = cells at *
  have hvalue : (represented 1 cells).value = (tallyOf (cells.map TokenCell.token)).reading.value :=
    rfl
  cases hsource : safeCounter o.source.value with
  | none =>
    have htoken : o.snapshot.token = .uncertain := by
      rw [token_snapshot, RawObservation.token, hsource]
    rcases htally : tallyOf (cells.map TokenCell.token) with ⟨reading, spilled⟩
    rw [represented_concat_of_not_spilled htally (r := .gone)
      (by rw [htoken, note_uncertain]), addRawTokenCell, hsource]
    rw [increase_of_le (show (represented 1 cells).unknown + 1 ≤ _ by
      change (cells.map TokenCell.unknown).sum + 1 ≤ _; omega), snapshot_unknown hsource]
    simp [addedCounts, emptyTokenCell, latest_none_right, Reading.value]
  | some n =>
    have htoken : o.snapshot.token = .counted n := by
      rw [token_snapshot, RawObservation.token, hsource]
    rw [addRawTokenCell, hsource]
    rw [increase_of_le (show (represented 1 cells).known + 1 ≤ _ by
      change (cells.map TokenCell.known).sum + 1 ≤ _; omega)]
    change (if (represented 1 cells).uncertain = true then _ else _ : TokenCell × Bool).1 = _
    rcases htally : tallyOf (cells.map TokenCell.token) with ⟨_ | sum | _, spilled⟩
    · obtain ⟨hknown, hcertain, hspilled⟩ :=
        of_reading_fresh (k := 1) hvalid (congrArg Tally.reading htally)
      rw [htally] at hvalue
      rw [if_neg (Bool.eq_false_iff.mp hcertain), hvalue, represented_concat_of_not_spilled htally
        (r := .exact n) (by rw [htoken]; rfl), snapshot_known hsource]
      simp [addedCounts, emptyTokenCell, Reading.value]
    · obtain ⟨hknown, hcertain, hspilled⟩ :=
        of_reading_exact (k := 1) hvalid (congrArg Tally.reading htally)
      rw [htally] at hvalue hspilled
      rw [if_neg (Bool.eq_false_iff.mp hcertain), hvalue]
      dsimp only [Reading.value]
      rw [if_neg hknown.ne']
      by_cases hlarge : maxSafeInteger - n < sum
      · have hnote : Tally.note ⟨.exact sum, spilled⟩ o.snapshot.token = ⟨.gone, true⟩ := by
          rw [htoken, note_exact_counted, if_pos hlarge]
        rw [if_pos hlarge, represented_concat, htally, hnote, snapshot_known hsource]
        have hlost : (represented 1 cells).lost = 0 := by
          simp only [represented, htally, hlosts, hspilled]
          rfl
        rw [increased, increase_of_le (show (represented 1 cells).lost + 1 ≤ _ by omega), hlost]
        simp [represented, emptyTokenCell, Reading.value, hlosts]
      · have hnote : Tally.note ⟨.exact sum, spilled⟩ o.snapshot.token
            = ⟨.exact (sum + n), spilled⟩ := by
          rw [htoken, note_exact_counted, if_neg hlarge]
        rw [if_neg hlarge, represented_concat_of_not_spilled htally hnote, snapshot_known hsource]
        simp [addedCounts, emptyTokenCell, Reading.value]
    · have huncertain : (represented 1 cells).uncertain = true :=
        represented_uncertain.mpr
          (gone_cases hsafe htokens (congrArg Tally.reading htally)).symm
      rw [if_pos huncertain, represented_concat_of_not_spilled htally (r := .gone)
        (by rw [htoken]; rfl), snapshot_known hsource]
      simp [addedCounts, emptyTokenCell, Reading.value]

/-! ## The folds -/

/-- The cell after the facts of requests. -/
def foldRaw (observations : List RawObservation) : TokenCell :=
  observations.foldl (fun cell o => (addRawTokenCell o.source o.fallback cell).1) emptyTokenCell

/-- The cell after the cells of attempts. -/
def foldAggregate (cells : List TokenCell) : TokenCell :=
  cells.foldl (fun cell source => (addAggregateTokenCell source cell).1) emptyTokenCell

/-- **Facts of requests** are represented. -/
theorem foldRaw_represents (hlength : observations.length ≤ maxSafeInteger) :
    foldRaw observations = represented 1 (observations.map RawObservation.snapshot) := by
  induction observations using List.reverseRecOn with
  | nil => rfl
  | append_singleton observations o ih =>
    rw [List.length_append, List.length_singleton] at hlength
    rw [foldRaw, List.foldl_append, List.map_append, List.map_singleton]
    change (addRawTokenCell o.source o.fallback (foldRaw observations)).1 = _
    rw [ih (by omega), addRawTokenCell_represented o (by omega)]

theorem Fits.of_append {others : List TokenCell} (h : Fits (cells ++ others)) : Fits cells := by
  obtain ⟨hknown, hunknown, hlost⟩ := h
  simp only [List.map_append, List.sum_append] at hknown hunknown hlost
  exact ⟨by omega, by omega, by omega⟩

/-- **Cells of attempts** are represented. -/
theorem foldAggregate_represents (hvalid : ∀ cell ∈ cells, isAggregateTokenCell cell = true)
    (hfits : Fits cells) : foldAggregate cells = represented 0 cells := by
  induction cells using List.reverseRecOn with
  | nil => rfl
  | append_singleton cells cell ih =>
    obtain ⟨hcells, hcell⟩ := List.forall_mem_append.mp hvalid
    rw [foldAggregate, List.foldl_append]
    change (addAggregateTokenCell cell (foldAggregate cells)).1 = _
    rw [ih hcells hfits.of_append,
      addAggregateTokenCell_represented hcells (hcell cell (by simp)) hfits]

/-! ## Orders -/

/-- The cell holds the exact sum of the observations, and is the same in whatever order they come. -/
structure ExactInAnyOrder {α : Type} (fold : List α → TokenCell) (tokens : List α → List Token)
    (observations : List α) : Prop where
  value : ∀ others : List α, others.Perm observations →
    (fold others).value = expectedValue (tokens observations)
  cell : ∀ others : List α, others.Perm observations → fold others = fold observations

theorem latest_comm (left right : Option Text) : latest left right = latest right left := by
  rcases left with _ | left <;> rcases right with _ | right <;> try rfl
  rw [latest, latest]
  grind [List.le_antisymm]

theorem latest_assoc (a b c : Option Text) : latest (latest a b) c = latest a (latest b c) := by
  rcases a with _ | a <;> rcases b with _ | b <;> rcases c with _ | c <;> try rfl
  · rw [latest_none_right, latest_none_right]
  · simp only [latest]
    grind [List.le_trans]

theorem represented_of_perm {others : List TokenCell} (hperm : others.Perm cells)
    (hvalue : (represented k others).value = (represented k cells).value)
    (hspilled : (tallyOf (others.map TokenCell.token)).spilled
        = (tallyOf (cells.map TokenCell.token)).spilled ∨
      k = 0 ∧ cells.any TokenCell.overflow = true) :
    represented k others = represented k cells := by
  have htimes : (others.map TokenCell.observedAt).foldl latest none
      = (cells.map TokenCell.observedAt).foldl latest none := by
    refine (hperm.map TokenCell.observedAt).foldl_eq' (fun x _ y _ z => ?_) none
    rw [latest_assoc, latest_comm x y, ← latest_assoc]
  simp only [represented] at hvalue ⊢
  rw [hvalue, htimes, (hperm.map TokenCell.known).sum_nat,
    (hperm.map TokenCell.unknown).sum_nat, (hperm.map TokenCell.lost).sum_nat, hperm.any_eq]
  rcases hspilled with hspilled | ⟨rfl, hoverflow⟩
  · rw [hspilled]
  · rw [hoverflow]
    simp

theorem exists_perm_spilled (hvalid : ∀ cell ∈ cells, isAggregateTokenCell cell = true)
    (hlarge : maxSafeInteger < total (cells.map TokenCell.token)) :
    ∃ others : List TokenCell, others.Perm cells ∧
      (tallyOf (others.map TokenCell.token)).spilled = true := by
  let counted := fun cell : TokenCell => cell.token.isCounted
  have hperm := List.filter_append_perm counted cells
  refine ⟨_, hperm, ?_⟩
  have hall : ∀ token ∈ (cells.filter counted).map TokenCell.token, token.isCounted = true :=
    List.forall_mem_map.mpr fun cell hcell => (List.mem_filter.mp hcell).2
  have hsafe : ∀ token ∈ (cells.filter counted).map TokenCell.token,
      token.amount ≤ maxSafeInteger :=
    List.forall_mem_map.mpr fun cell hcell =>
      amount_token_le (hvalid cell (List.mem_of_mem_filter hcell))
  have hnone : total ((cells.filter fun cell => !counted cell).map TokenCell.token) = 0 := by
    refine Nat.eq_zero_of_not_pos fun hpos => ?_
    obtain ⟨token, htoken, hamount⟩ := sum_map_pos.mp hpos
    obtain ⟨cell, hcell, rfl⟩ := List.mem_map.mp htoken
    have hnot := (List.mem_filter.mp hcell).2
    cases h : cell.token with
    | counted n => simp [counted, h, Token.isCounted] at hnot
    | nothing => rw [h] at hamount; cases hamount
    | uncertain => rw [h] at hamount; cases hamount
  have hsum : total ((cells.filter counted).map TokenCell.token)
      = total (cells.map TokenCell.token) := by
    have htotal := total_eq_of_perm (hperm.map TokenCell.token)
    rw [List.map_append, total_append, hnone] at htotal
    exact htotal
  have hne : (cells.filter counted).map TokenCell.token ≠ [] := by
    intro hnil
    rw [hnil] at hsum
    change 0 = _ at hsum
    omega
  have htally := tallyOf_counted (List.forall_mem_map.mpr hsafe) (by simpa using hne)
  rw [← eq_map_counted hall, ← total, if_neg (by omega)] at htally
  rw [List.map_append, tallyOf, List.foldl_append, ← tallyOf, htally, foldl_note_gone]

theorem exists_perm_gone {counted other : TokenCell} (hcounted : counted ∈ cells)
    (hother : other ∈ cells) (h : counted.token.isCounted = true)
    (h' : other.token.isCounted = false) :
    ∃ others : List TokenCell, others.Perm cells ∧
      tallyOf (others.map TokenCell.token) = ⟨.gone, false⟩ := by
  obtain ⟨before, after, rfl⟩ := List.append_of_mem hcounted
  have hrest : other ∈ before ++ after := by
    rcases List.mem_append.mp hother with hmem | hmem
    · exact List.mem_append_left _ hmem
    rcases List.mem_cons.mp hmem with rfl | hmem
    · rw [h] at h'
      cases h'
    · exact List.mem_append_right _ hmem
  obtain ⟨before', after', hsplit⟩ := List.append_of_mem hrest
  refine ⟨counted :: other :: (before' ++ after'), ?_, ?_⟩
  · refine .trans (.cons counted ?_) List.perm_middle.symm
    rw [hsplit]
    exact List.perm_middle.symm
  · rw [List.map_cons, List.map_cons, tallyOf]
    cases hn : counted.token with
    | counted n =>
      cases ho : other.token with
      | counted m => rw [ho] at h'; cases h'
      | nothing => exact foldl_note_gone _ _
      | uncertain => exact foldl_note_gone _ _
    | nothing => rw [hn] at h; cases h
    | uncertain => rw [hn] at h; cases h

/-- **When the order does not matter**: where every observation is counted, where one says that a
sum has overflowed, and where the sum is not too large and no observation says nothing beside ones
that are counted. -/
theorem represented_exact_iff (hvalid : ∀ cell ∈ cells, isAggregateTokenCell cell = true)
    (hcost : k = 0 ∨ cells.any TokenCell.overflow = false) :
    ExactInAnyOrder (represented k) (List.map TokenCell.token) cells ↔
      Settled (cells.map TokenCell.token) ∨ cells.any TokenCell.overflow = true := by
  constructor
  · rintro ⟨hvalue, hcell⟩
    by_contra hno
    rw [not_or] at hno
    obtain ⟨hsettled, hoverflow⟩ := hno
    rw [Settled, not_or] at hsettled
    obtain ⟨hcounted, hrest⟩ := hsettled
    -- one observation is not counted
    obtain ⟨other, hother, hnot⟩ : ∃ cell ∈ cells, cell.token.isCounted = false := by
      by_contra hall
      refine hcounted (List.forall_mem_map.mpr fun cell hcell => ?_)
      by_contra hfalse
      exact hall ⟨cell, hcell, Bool.eq_false_iff.mpr hfalse⟩
    have hgone : ∀ counted ∈ cells, counted.token.isCounted = true →
        (represented k cells).value = none ∧ (represented k cells).overflow = false := by
      intro counted hmem h
      obtain ⟨others, hperm, htally⟩ := exists_perm_gone hmem hother h hnot
      rw [← hcell others hperm]
      simp only [represented, htally, hperm.any_eq, Bool.or_false]
      exact ⟨rfl, Bool.eq_false_iff.mpr hoverflow⟩
    by_cases hlarge : maxSafeInteger < total (cells.map TokenCell.token)
    · obtain ⟨others, hperm, hspilled⟩ := exists_perm_spilled hvalid hlarge
      obtain ⟨amount, hamount, hpos⟩ : ∃ cell ∈ cells, 0 < cell.token.amount := by
        obtain ⟨token, htoken, hpos⟩ := sum_map_pos.mp (Nat.zero_lt_of_lt hlarge)
        obtain ⟨cell, hcell, rfl⟩ := List.mem_map.mp htoken
        exact ⟨cell, hcell, hpos⟩
      have hsome : amount.token.isCounted = true := by
        cases h : amount.token with
        | counted n => rfl
        | nothing => rw [h] at hpos; cases hpos
        | uncertain => rw [h] at hpos; cases hpos
      have hfalse := (hgone amount hamount hsome).2
      rw [← hcell others hperm] at hfalse
      simp [represented, hspilled] at hfalse
    · rw [not_and, not_or, not_or] at hrest
      obtain ⟨hnothing, huncertain, hexists⟩ := hrest (by omega)
      obtain ⟨counted, hmem, hsome⟩ : ∃ cell ∈ cells, cell.token.isCounted = true := by
        by_contra hall
        refine hexists (List.forall_mem_map.mpr fun cell hcell => ?_)
        rw [Bool.eq_false_iff]
        exact fun h => hall ⟨cell, hcell, h⟩
      have hnone := (hgone counted hmem hsome).1
      have hany : (cells.map TokenCell.token).any Token.isCounted = true :=
        List.any_eq_true.mpr ⟨_, List.mem_map_of_mem hmem, hsome⟩
      rw [hvalue cells (.refl _), expectedValue, if_pos ⟨hany, huncertain, by omega⟩] at hnone
      cases hnone
  · have hsafe : ∀ others : List TokenCell, others.Perm cells →
        ∀ token ∈ others.map TokenCell.token, token.amount ≤ maxSafeInteger :=
      fun others hperm => List.forall_mem_map.mpr fun cell hcell =>
        amount_token_le (hvalid cell (hperm.mem_iff.mp hcell))
    intro h
    have hvalue : ∀ others : List TokenCell, others.Perm cells →
        (represented k others).value = expectedValue (cells.map TokenCell.token) := by
      intro others hperm
      rcases h with hsettled | hoverflow
      · rw [← expectedValue_of_perm (hperm.map _)]
        exact ((hsettled.of_perm (hperm.map _)).tally (hsafe others hperm)).1
      · obtain ⟨cell, hcell, hcelloverflow⟩ := List.any_eq_true.mp hoverflow
        have huncertain : Token.uncertain ∈ cells.map TokenCell.token :=
          List.mem_map.mpr ⟨cell, hcell, token_eq_uncertain_iff.mpr (by
            simp [TokenCell.uncertain, hcelloverflow])⟩
        rw [expectedValue, if_neg fun h => h.2.1 huncertain]
        have hgone := foldl_note_uncertain ((hperm.map TokenCell.token).mem_iff.mpr huncertain)
          ⟨.fresh, false⟩
        change (tallyOf _).reading.value = none
        rw [tallyOf, hgone]
        rfl
    refine ⟨hvalue, fun others hperm => represented_of_perm hperm ?_ ?_⟩
    · rw [hvalue others hperm, hvalue cells (.refl _)]
    · rcases h with hsettled | hoverflow
      · refine .inl ?_
        rw [((hsettled.of_perm (hperm.map _)).tally (hsafe others hperm)).2,
          (hsettled.tally (hsafe cells (.refl _))).2, total_eq_of_perm (hperm.map _)]
      · refine .inr ⟨hcost.resolve_right fun hfalse => ?_, hoverflow⟩
        rw [hfalse] at hoverflow
        cases hoverflow

theorem exists_perm_of_map {α β : Type} {f : α → β} {l : List α} {n : List β}
    (h : n.Perm (l.map f)) : ∃ others : List α, others.Perm l ∧ others.map f = n := by
  have hmap : List.Forall₂ (fun b a => b = f a) (l.map f) l :=
    List.forall₂_map_left_iff.mpr (List.forall₂_same.mpr fun _ _ => rfl)
  obtain ⟨others, hothers, hperm⟩ := List.perm_comp_forall₂ h hmap
  refine ⟨others, hperm, ?_⟩
  rw [← List.forall₂_eq_eq_eq, List.forall₂_map_left_iff]
  exact hothers.flip.imp fun _ _ heq => heq.symm

theorem foldRaw_exact_iff (hlength : observations.length ≤ maxSafeInteger) :
    ExactInAnyOrder foldRaw (List.map RawObservation.token) observations ↔
      Token.uncertain ∉ observations.map RawObservation.token ∨
        total (observations.map RawObservation.token) ≤ maxSafeInteger := by
  have hfold : ∀ others : List RawObservation, others.Perm observations →
      foldRaw others = represented 1 (others.map RawObservation.snapshot) :=
    fun others hperm => foldRaw_represents (hperm.length_eq ▸ hlength)
  have htokens : ∀ others : List RawObservation,
      (others.map RawObservation.snapshot).map TokenCell.token
        = others.map RawObservation.token := by
    intro others
    rw [List.map_map]
    exact List.map_congr_left fun o _ => token_snapshot o
  have hoverflow : (observations.map RawObservation.snapshot).any TokenCell.overflow = false := by
    rw [List.any_eq_false]
    refine List.forall_mem_map.mpr fun o _ => ?_
    rw [(lost_snapshot o).2]
    exact Bool.false_ne_true
  have hiff := represented_exact_iff (k := 1)
    (List.forall_mem_map.mpr fun o (_ : o ∈ observations) => isAggregateTokenCell_snapshot o)
    (.inr hoverflow)
  rw [htokens, hoverflow] at hiff
  constructor
  · intro h
    have hexact : ExactInAnyOrder (represented 1) (List.map TokenCell.token)
        (observations.map RawObservation.snapshot) := by
      refine ⟨fun cells hcells => ?_, fun cells hcells => ?_⟩
      · obtain ⟨others, hperm, rfl⟩ := exists_perm_of_map hcells
        rw [← hfold others hperm, h.value others hperm, htokens]
      · obtain ⟨others, hperm, rfl⟩ := exists_perm_of_map hcells
        rw [← hfold others hperm, ← hfold observations (.refl _), h.cell others hperm]
    rcases hiff.mp hexact with (hcounted | hsum) | hfalse
    · exact .inl fun h => by cases hcounted _ h
    · exact .inr hsum.1
    · cases hfalse
  · intro h
    have hnothing : Token.nothing ∉ observations.map RawObservation.token := by
      intro h
      obtain ⟨o, -, ho⟩ := List.mem_map.mp h
      exact token_snapshot_ne_nothing o ((token_snapshot o).trans ho)
    have hsettled : Settled (observations.map RawObservation.token) := by
      rcases h with huncertain | hsum
      · refine .inl fun token htoken => ?_
        cases token with
        | counted n => rfl
        | nothing => exact absurd htoken hnothing
        | uncertain => exact absurd htoken huncertain
      · exact .inr ⟨hsum, .inl hnothing⟩
    obtain ⟨hvalue, hcell⟩ := hiff.mpr (.inl hsettled)
    refine ⟨fun others hperm => ?_, fun others hperm => ?_⟩
    · rw [hfold others hperm, hvalue _ (hperm.map _), htokens]
    · rw [hfold others hperm, hfold observations (.refl _), hcell _ (hperm.map _)]

theorem foldAggregate_exact_iff (hvalid : ∀ cell ∈ cells, isAggregateTokenCell cell = true)
    (hfits : Fits cells) :
    ExactInAnyOrder foldAggregate (List.map TokenCell.token) cells ↔
      Settled (cells.map TokenCell.token) ∨ cells.any TokenCell.overflow = true := by
  have hfold : ∀ others : List TokenCell, others.Perm cells →
      foldAggregate others = represented 0 others := by
    refine fun others hperm => foldAggregate_represents
      (fun cell hcell => hvalid cell (hperm.mem_iff.mp hcell)) ⟨?_, ?_, ?_⟩
    · rw [(hperm.map TokenCell.known).sum_nat]
      exact hfits.known
    · rw [(hperm.map TokenCell.unknown).sum_nat]
      exact hfits.unknown
    · rw [(hperm.map TokenCell.lost).sum_nat]
      exact hfits.lost
  rw [← represented_exact_iff hvalid (.inl rfl)]
  constructor
  · rintro ⟨hvalue, hcell⟩
    refine ⟨fun others hperm => ?_, fun others hperm => ?_⟩
    · rw [← hfold others hperm, hvalue others hperm]
    · rw [← hfold others hperm, ← hfold cells (.refl _), hcell others hperm]
  · rintro ⟨hvalue, hcell⟩
    refine ⟨fun others hperm => ?_, fun others hperm => ?_⟩
    · rw [hfold others hperm, hvalue others hperm]
    · rw [hfold others hperm, hfold cells (.refl _), hcell others hperm]

/-- **When a token cell holds the exact sum in whatever order**: facts of requests where all of them
are known or the known ones are not too large; cells of attempts where all of them have a value,
or one has overflowed, or the sum is not too large and no cell without observations is among cells
with values. -/
theorem tokenCell_exact_iff (observations : List RawObservation) (cells : List TokenCell) :
    (observations.length ≤ maxSafeInteger →
      (ExactInAnyOrder foldRaw (List.map RawObservation.token) observations ↔
        Token.uncertain ∉ observations.map RawObservation.token ∨
          total (observations.map RawObservation.token) ≤ maxSafeInteger)) ∧
    ((∀ cell ∈ cells, isAggregateTokenCell cell = true) → Fits cells →
      (ExactInAnyOrder foldAggregate (List.map TokenCell.token) cells ↔
        Settled (cells.map TokenCell.token) ∨ cells.any TokenCell.overflow = true)) :=
  ⟨foldRaw_exact_iff, foldAggregate_exact_iff⟩

/-- A fact with a value, or without. -/
def observed (value : Option Nat) : RawObservation where
  source := { value, observedAt := none, method := none }
  fallback := text "2026-01-01T00:00:00.000Z"

/-- Two facts whose sum is too large, and an unknown one: the overflow shows when the unknown one
comes last. A cell without observations takes the value of the one before it, and leaves a cell
that is none. -/
theorem order_of_observations_matters :
    (¬ ExactInAnyOrder foldRaw (List.map RawObservation.token)
      [observed (some maxSafeInteger), observed (some 1), observed none]) ∧
    ¬ ExactInAnyOrder foldAggregate (List.map TokenCell.token)
        [(observed (some 1)).snapshot, emptyTokenCell] ∧
      isAggregateTokenCell emptyTokenCell = true ∧
      isAggregateTokenCell (foldAggregate [(observed (some 1)).snapshot, emptyTokenCell])
        = false := by
  refine ⟨fun h => ?_, fun h => ?_, by decide, by decide⟩
  · have hperm : ([observed none] ++ [observed (some maxSafeInteger), observed (some 1)]).Perm
        ([observed (some maxSafeInteger), observed (some 1)] ++ [observed none]) :=
      List.perm_append_comm
    have hcell := h.cell _ hperm
    have hoverflow := congrArg TokenCell.overflow hcell
    revert hoverflow
    decide
  · have hvalue := h.value [(observed (some 1)).snapshot, emptyTokenCell] (.refl _)
    revert hvalue
    decide

end LlmRelay.Accounting
