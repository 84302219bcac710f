import LlmRelay.Accounting.RowCounts

/-!
# Runs of the accounting store

In a run in which every request of a day is counted in its row, and the day is not removed by
retention, the shard of the day has counted exactly the requests that were applied.

## Main definitions

* `DayKept`: the day in memory and its file hold what was applied and what was written;
* `StoreStep.Fits`, `FitsRun`: the steps that keep it.

## Main results

* `DayKept.step`, `DayKept.after`: a step, and a run;
* `DayKept.loadedDay`: the day as it is read.
-/

namespace LlmRelay.Accounting

open Ecma

/-- The day in memory has counted what was applied, its file what was written. -/
structure DayKept (world : AccountingWorld) (date : Text) : Prop where
  memory : ∀ day, world.store.days date = some day → DayRepresents day (world.applied date)
  unloaded : world.store.days date = none → world.applied date = world.written date
  clean : world.store.dirtyDays date = false → world.applied date = world.written date
  file : ∀ day, world.store.shards date = .readable day →
    DayRepresents day (world.written date)
  missing : world.store.shards date = .missing → world.written date = []

theorem DayKept.opened (date : Text) : DayKept .opened date where
  memory := fun _ h => by cases h
  unloaded := fun _ => rfl
  clean := fun _ => rfl
  file := fun _ h => by cases h
  missing := fun _ => rfl

variable {world : AccountingWorld} {date : Text} {dedupLimit : Nat}

/-- A day that is read has counted what was applied. -/
theorem DayKept.loadedDay (h : DayKept world date) {day : MutableDay}
    (hday : world.store.loadedDay date = some day) : DayRepresents day (world.applied date) := by
  unfold AccountingStore.loadedDay at hday
  cases hmemory : world.store.days date with
  | some day' =>
    rw [hmemory] at hday
    obtain rfl := Option.some.inj hday
    exact h.memory _ hmemory
  | none =>
    rw [hmemory] at hday
    rw [h.unloaded hmemory]
    cases hfile : world.store.shards date with
    | missing =>
      rw [hfile] at hday
      obtain rfl := Option.some.inj hday
      rw [h.missing hfile]
      exact .empty
    | unreadable =>
      rw [hfile] at hday
      cases hday
    | readable day' =>
      rw [hfile] at hday
      obtain rfl := Option.some.inj hday
      exact h.file _ hfile

/-- A request of the day is counted in its row when it is new, and retention spares the
day. -/
def StoreStep.Fits (date : Text) (world : AccountingWorld) : StoreStep → Prop
  | .terminal request =>
    request.date = date → world.store.closed = false → ∀ day,
      world.store.loadedDay date = some day → request.requestId ∉ day.requestIds →
      CountedIn day request
  | .prune pruned => pruned ≠ date
  | _ => True

/-- Every step of the run fits. -/
def FitsRun (dedupLimit : Nat) (date : Text) : AccountingWorld → List StoreStep → Prop
  | _, [] => True
  | world, step :: rest =>
    step.Fits date world ∧ FitsRun dedupLimit date (world.step dedupLimit step) rest

/-- A day that was read into memory. -/
theorem DayKept.load (h : DayKept world date) (loaded : Text) :
    DayKept { world with store := world.store.loadDayForWrite loaded } date := by
  by_cases hdate : date = loaded
  · subst hdate
    refine ⟨fun day hday => ?_, fun hday => ?_, h.clean, h.file, h.missing⟩
    · simp only [AccountingStore.loadDayForWrite, Function.update_self] at hday
      exact h.loadedDay hday
    · simp only [AccountingStore.loadDayForWrite, Function.update_self] at hday
      refine h.unloaded ?_
      unfold AccountingStore.loadedDay at hday
      cases hmemory : world.store.days date with
      | none => rfl
      | some day =>
        rw [hmemory] at hday
        cases hday
  · refine ⟨fun day hday => ?_, fun hday => ?_, h.clean, h.file, h.missing⟩
    · simp only [AccountingStore.loadDayForWrite, Function.update_of_ne hdate] at hday
      exact h.memory day hday
    · simp only [AccountingStore.loadDayForWrite, Function.update_of_ne hdate] at hday
      exact h.unloaded hday

theorem DayKept.applyTerminal (h : DayKept world date) {request : TerminalRequest}
    (hopen : world.store.closed = false) (hfits : (StoreStep.terminal request).Fits date world) :
    DayKept (world.applyTerminal dedupLimit request) date := by
  unfold AccountingWorld.applyTerminal
  cases hday : world.store.loadedDay request.date with
  | none => exact h
  | some day =>
    dsimp only
    split
    · exact h.load request.date
    · rename_i hnew
      by_cases hdate : request.date = date
      · subst hdate
        have hcounted := hfits rfl hopen day hday hnew
        refine ⟨fun day' hday' => ?_, fun hnone => ?_, fun hclean => ?_, h.file, h.missing⟩
        · simp only [Function.update_self] at hday' ⊢
          obtain rfl := Option.some.inj hday'
          exact (h.loadedDay hday).applyToDay dedupLimit hcounted
        · simp only [Function.update_self] at hnone
          cases hnone
        · simp only [Function.update_self] at hclean
          cases hclean
      · have hne : date ≠ request.date := Ne.symm hdate
        refine ⟨fun day' hday' => ?_, fun hnone => ?_, fun hclean => ?_, h.file, h.missing⟩
        · simp only [Function.update_of_ne hne] at hday' ⊢
          exact h.memory day' hday'
        · simp only [Function.update_of_ne hne] at hnone ⊢
          exact h.unloaded hnone
        · simp only [Function.update_of_ne hne] at hclean ⊢
          exact h.clean hclean

theorem DayKept.flush (h : DayKept world date) (reached : List Text) (committed : Bool) :
    DayKept (world.step dedupLimit (.flush reached committed)) date := by
  by_cases hflushes : world.store.flushes reached committed date = true
  · -- the day is in memory, and its file now holds it
    have hsome : (world.store.days date).isSome = true := by
      rw [AccountingStore.flushes, Bool.and_eq_true] at hflushes
      exact hflushes.2
    obtain ⟨day, hday⟩ := Option.isSome_iff_exists.mp hsome
    have hwritten : (world.step dedupLimit (.flush reached committed)).written date
        = world.applied date := by
      simp [AccountingWorld.step, hflushes]
    have hshard : (world.step dedupLimit (.flush reached committed)).store.shards date
        = .readable day := by
      simp [AccountingWorld.step, AccountingWorld.flushedShards, hflushes, hday]
    refine ⟨h.memory, fun _ => hwritten.symm, fun _ => hwritten.symm, fun day' hday' => ?_,
      fun hmissing => ?_⟩
    · rw [hshard] at hday'
      obtain rfl := Shard.readable.inj hday'
      rw [hwritten]
      exact h.memory day hday
    · rw [hshard] at hmissing
      cases hmissing
  · have hwritten : (world.step dedupLimit (.flush reached committed)).written date
        = world.written date := by
      simp [AccountingWorld.step, hflushes]
    have hshard : (world.step dedupLimit (.flush reached committed)).store.shards date
        = world.store.shards date := by
      simp [AccountingWorld.step, AccountingWorld.flushedShards, hflushes]
    refine ⟨h.memory, fun hnone => (h.unloaded hnone).trans hwritten.symm, fun hclean => ?_,
      fun day' hday' => ?_, fun hmissing => ?_⟩
    · rw [hwritten]
      change (!committed && world.store.dirtyDays date) = false at hclean
      cases hdirty : world.store.dirtyDays date with
      | false => exact h.clean hdirty
      | true =>
        rw [hdirty, Bool.and_true, Bool.not_eq_false'] at hclean
        -- a dirty day that a commit passes over is not in memory
        cases hmemory : world.store.days date with
        | none => exact h.unloaded hmemory
        | some day =>
          simp [AccountingStore.flushes, hdirty, hclean, hmemory] at hflushes
    · rw [hwritten]
      exact h.file day' (hshard ▸ hday')
    · rw [hwritten]
      exact h.missing (hshard ▸ hmissing)

/-- **One step**: what fits keeps the day. -/
theorem DayKept.step {dedupLimit : Nat} {world : AccountingWorld} {date : Text}
    (h : DayKept world date) {step : StoreStep} (hfits : step.Fits date world) :
    DayKept (world.step dedupLimit step) date := by
  cases step with
  | terminal request =>
    unfold AccountingWorld.step
    dsimp only
    split
    · exact h
    · rename_i hopen
      exact h.applyTerminal (by simpa using hopen) hfits
  | flush reached committed => exact h.flush reached committed
  | load loaded => exact h.load loaded
  | evict evicted =>
    unfold AccountingWorld.step
    dsimp only
    split
    · exact h
    · rename_i hclean
      by_cases hdate : date = evicted
      · subst hdate
        refine ⟨fun day hday => ?_, fun _ => h.clean (by simpa using hclean), h.clean, h.file,
          h.missing⟩
        simp only [Function.update_self] at hday
        cases hday
      · refine ⟨fun day hday => ?_, fun hnone => ?_, h.clean, h.file, h.missing⟩
        · simp only [Function.update_of_ne hdate] at hday
          exact h.memory day hday
        · simp only [Function.update_of_ne hdate] at hnone
          exact h.unloaded hnone
  | prune pruned =>
    have hne : date ≠ pruned := Ne.symm hfits
    refine ⟨fun day hday => h.memory day ?_, fun hnone => h.unloaded ?_, h.clean,
      fun day hday => h.file day ?_, fun hmissing => h.missing ?_⟩
    · simpa only [AccountingWorld.step, Function.update_of_ne hne] using hday
    · simpa only [AccountingWorld.step, Function.update_of_ne hne] using hnone
    · simpa only [AccountingWorld.step, Function.update_of_ne hne] using hday
    · simpa only [AccountingWorld.step, Function.update_of_ne hne] using hmissing
  | damage damaged =>
    refine ⟨h.memory, h.unloaded, h.clean, fun day hday => ?_, fun hmissing => ?_⟩
    · by_cases hdate : date = damaged
      · subst hdate
        simp [AccountingWorld.step] at hday
      · simp only [AccountingWorld.step, Function.update_of_ne hdate] at hday
        exact h.file day hday
    · by_cases hdate : date = damaged
      · subst hdate
        simp [AccountingWorld.step] at hmissing
      · simp only [AccountingWorld.step, Function.update_of_ne hdate] at hmissing
        exact h.missing hmissing
  | close => exact ⟨h.memory, h.unloaded, h.clean, h.file, h.missing⟩
  | restart =>
    refine ⟨fun _ hday => ?_, fun _ => rfl, fun _ => rfl, h.file, h.missing⟩
    cases hday

/-- **A run**: where every step fits, the day is kept. -/
theorem DayKept.after (h : DayKept world date) {steps : List StoreStep}
    (hfits : FitsRun dedupLimit date world steps) :
    DayKept (world.after dedupLimit steps) date := by
  induction steps generalizing world with
  | nil => exact h
  | cons step rest ih => exact ih (h.step hfits.1) hfits.2

end LlmRelay.Accounting
