import LlmRelay.Breaker.Operations
import LlmRelay.Transition.SlidingWindow

/-!
# The attempt-start log

A breaker logs the starts of the attempts on a cell and answers how many of them lie in
a trailing window (`circuit-breaker.ts`). The log forgets what is older than a day and
keeps a bounded number of starts, a reset empties it, and no other operation touches it.

## Main definitions

* `attemptsInWindow`: the sliding-window count of a cell;
* `startsOn`: the starts on a cell since its breaker was constructed or last reset.

## Main results

* `World.attemptLog_operate`: what one operation does to the log of a cell;
* `World.keepsStarts`: after every run the log is the end of the starts;
* `requests_attemptsInWindow`: on an ordered log the count is that of the trailing window.
-/

namespace LlmRelay

open Ecma Transition

/-! ## The count -/

/-- What a trailing window of a cell holds. -/
structure AttemptWindow where
  requests : Nat
  estimatedInputTokens : Option Number
  saturated : Bool
  deriving DecidableEq

/-- Adds an estimate to a sum; an unknown member leaves no sum. -/
def addEstimate (tokens estimate : Option Number) : Option Number :=
  tokens.bind fun sum => estimate.map sum.add

/-- The walk from the newest start to the first one outside the window; a start after
`now` is passed over. -/
def walkWindow (since now : Number) (requests : Nat) (tokens : Option Number) :
    List AttemptStart → Nat × Option Number
  | [] => (requests, tokens)
  | start :: older =>
    if start.at_.le since then (requests, tokens)
    else if now.lt start.at_ then walkWindow since now requests tokens older
    else
      walkWindow since now (requests + 1) (addEstimate tokens start.estimatedInputTokens) older

/-- The attempts started on a cell in the trailing window. -/
def attemptsInWindow (logs : AttemptStarts) (credentialId : String) (model : Option String)
    (windowMs now : Number) : AttemptWindow :=
  match logs.get? (cellKey credentialId model) with
  | none => ⟨0, some 0, false⟩
  | some log =>
    if !windowMs.isFinite || windowMs.le 0 then ⟨0, some 0, false⟩
    else
      let (requests, tokens) := walkWindow (now.sub windowMs) now 0 (some 0) log.reverse
      ⟨requests, tokens, decide (MAX_ATTEMPT_STARTS ≤ log.length ∧ requests = log.length)⟩

/-! ## The log of a cell -/

/-- What an answered operation means to the log of a cell. -/
inductive LogEvent where
  | started (at_ : Number) (estimatedInputTokens : Option Number)
  | forgotten
  | unrelated
  deriving DecidableEq

/-- What an answered operation means to the log of the cell `key` of the breaker `b`. -/
def logEvent (b : Ref) (key : String) : Operation × Answer → LogEvent
  | (.lifecycle (.beginAttempt b' target start dateNow), .reply (.begun (.ok _))) =>
    if b' = b ∧ getKey target = key then
      .started (start.at_.getD dateNow) start.estimatedInputTokens
    else .unrelated
  | (.lifecycle .construct, .reply (.constructed b')) => if b' = b then .forgotten else .unrelated
  | (.lifecycle (.reset b'), .reply (.wasReset _)) => if b' = b then .forgotten else .unrelated
  | _ => .unrelated

theorem eq_beginAttempt_of_logEvent {b : Ref} {key : String} {op : Operation} {answer : Answer}
    {at_ : Number} {estimatedInputTokens : Option Number}
    (h : logEvent b key (op, answer) = .started at_ estimatedInputTokens) :
    ∃ target start dateNow, op = .lifecycle (.beginAttempt b target start dateNow) ∧
      getKey target = key ∧ at_ = start.at_.getD dateNow := by
  unfold logEvent at h
  split at h
  · rename_i b' target start dateNow _ heq
    cases heq
    split at h
    · rename_i hcell
      obtain ⟨rfl, hkey⟩ := hcell
      cases h
      exact ⟨target, start, dateNow, rfl, hkey, rfl⟩
    · cases h
  · split at h <;> cases h
  · split at h <;> cases h
  · cases h

/-- One more start in a log; a start that is not finite is not logged. -/
def logStart (log : List AttemptStart) (at_ : Number) (estimatedInputTokens : Option Number) :
    List AttemptStart :=
  if !at_.isFinite then log
  else pruneAttemptStarts (log ++ [⟨at_, usableEstimate estimatedInputTokens⟩]) at_

/-- A log after an event. -/
def LogEvent.apply (log : List AttemptStart) : LogEvent → List AttemptStart
  | started at_ estimatedInputTokens => logStart log at_ estimatedInputTokens
  | forgotten => []
  | unrelated => log

/-- The starts of a cell after an event. -/
def LogEvent.record (starts : List Number) : LogEvent → List Number
  | started at_ _ => starts ++ [at_]
  | forgotten => []
  | unrelated => starts

/-- The starts of attempts on a cell since its breaker was constructed or last reset. -/
def startsOn (b : Ref) (key : String) (events : List (Operation × Answer)) : List Number :=
  events.foldl (fun starts event => (logEvent b key event).record starts) []

theorem startsOn_snoc (b : Ref) (key : String) (events : List (Operation × Answer))
    (event : Operation × Answer) :
    startsOn b key (events ++ [event]) = (logEvent b key event).record (startsOn b key events) := by
  rw [startsOn, List.foldl_append]
  rfl

/-- The attempt-start logs of a breaker. -/
def World.attemptStartsOf (w : World) (b : Ref) : AttemptStarts :=
  ((w.breakers.get? b).map (·.attemptStarts)).getD .empty

/-- The attempt-start log of a cell. -/
def World.attemptLog (w : World) (b : Ref) (key : String) : List AttemptStart :=
  ((w.attemptStartsOf b).get? key).getD []

section AttemptLog

variable {w : World} {b : Ref} {breaker : CircuitBreaker}

theorem World.attemptLog_of_some (h : w.breakers.get? b = some breaker) (key : String) :
    w.attemptLog b key = (breaker.attemptStarts.get? key).getD [] := by
  simp [attemptLog, attemptStartsOf, h]

@[simp] theorem World.attemptLog_update (w : World) (b b' : Ref) (heap : HandleHeap)
    (breaker : CircuitBreaker) (key : String) :
    (w.update b heap breaker).attemptLog b' key
      = if b = b' then (breaker.attemptStarts.get? key).getD [] else w.attemptLog b' key := by
  simp only [attemptLog, attemptStartsOf, update, OrderedMap.get?_set]
  split <;> rfl

theorem getD_recordAttemptStart (logs : AttemptStarts) (target : ProviderTargetIdentity)
    (now : Number) (estimatedInputTokens : Option Number) (key : String) :
    ((recordAttemptStart logs target now estimatedInputTokens).get? key).getD []
      = if getKey target = key then logStart ((logs.get? key).getD []) now estimatedInputTokens
        else (logs.get? key).getD [] := by
  unfold recordAttemptStart logStart
  by_cases hnow : now.isFinite = true
  · rw [hnow, Bool.not_true, if_neg Bool.false_ne_true, if_neg Bool.false_ne_true,
      OrderedMap.get?_set]
    split
    · rename_i hkey
      rw [hkey, Option.getD_some]
    · rfl
  · rw [Bool.not_eq_true] at hnow
    rw [hnow, Bool.not_false, if_pos rfl, if_pos rfl, ite_self]

theorem CircuitBreaker.attemptStarts_beginAttempt (breaker : CircuitBreaker) (heap : HandleHeap)
    (target : ProviderTargetIdentity) (start : AttemptStartOptions) (dateNow : Number) :
    (breaker.beginAttempt heap target start dateNow).2.2.attemptStarts
      = match (breaker.beginAttempt heap target start dateNow).1 with
        | .ok _ =>
          recordAttemptStart breaker.attemptStarts target (start.at_.getD dateNow)
            start.estimatedInputTokens
        | .error _ => breaker.attemptStarts := by
  rcases hbegin : breaker.lifecycle.beginAttempt heap.knownHandles heap.nextRef target with
    ⟨result | handle, lifecycle, knownHandles⟩
  · simp only [beginAttempt, hbegin]
  · simp only [beginAttempt, hbegin]

theorem CircuitBreaker.attemptStarts_observeHeaders (breaker : CircuitBreaker)
    (heap : HandleHeap) (handle : AttemptHandle) (observation : HeaderObservation) :
    (breaker.observeHeaders heap handle observation).2.attemptStarts = breaker.attemptStarts := by
  rcases breaker.observeHeaders_cases heap handle observation with
    ⟨failure, hfail⟩ | ⟨ref, record, -, -, -, hok⟩
  · rw [hfail]
  · rw [hok]

theorem CircuitBreaker.attemptStarts_completeAttempt [Url] (breaker : CircuitBreaker)
    (heap : HandleHeap) (handle : AttemptHandle) (outcome : AttemptOutcome) :
    (breaker.completeAttempt heap handle outcome).2.2.attemptStarts = breaker.attemptStarts := by
  rcases breaker.completeAttempt_cases heap handle outcome with
    ⟨failure, hfail⟩ | ⟨ref, record, known, done, -, -, -, -, -, -, hok⟩
  · rw [hfail]
  · rw [hok]

theorem CircuitBreaker.attemptStarts_reset (breaker : CircuitBreaker) (heap : HandleHeap) :
    (breaker.reset heap).2.2.attemptStarts = .empty := by
  cases hnew : AttemptLifecycle.construct heap.nextRef (breaker.generation + 1) with
  | none => simp only [reset, hnew]
  | some lifecycle => simp only [reset, hnew]

/-- **One operation** does to the log of a cell what its event says. -/
theorem World.attemptLog_operate [Url] (w : World) (op : Operation) (b : Ref) (key : String) :
    (w.operate op).1.attemptLog b key
      = (logEvent b key (op, (w.operate op).2)).apply (w.attemptLog b key) := by
  cases op with
  | direct b' write =>
    cases hb : w.breakers.get? b' with
    | none => simp only [operate, hb, logEvent, LogEvent.apply]
    | some breaker =>
      simp only [operate, hb, logEvent, LogEvent.apply, attemptLog_update]
      split
      · rename_i heq
        rw [← heq, attemptLog_of_some hb]
      · rfl
  | lifecycle call =>
    cases call with
    | construct =>
      simp only [operate, step, logEvent, attemptLog_update]
      split
      · rfl
      · rfl
    | beginAttempt b' target start dateNow =>
      cases hb : w.breakers.get? b' with
      | none => simp only [operate, step, hb, logEvent, LogEvent.apply]
      | some breaker =>
        have hstarts := breaker.attemptStarts_beginAttempt w.heap target start dateNow
        rcases hbegin : breaker.beginAttempt w.heap target start dateNow with
          ⟨failure | handle, heap, breaker'⟩
        · -- a refused attempt is not logged
          rw [hbegin] at hstarts
          simp only [operate, step, hb, hbegin, logEvent, LogEvent.apply, attemptLog_update]
          split
          · rename_i heq
            rw [← heq, attemptLog_of_some hb, hstarts]
          · rfl
        · rw [hbegin] at hstarts
          simp only at hstarts
          simp only [operate, step, hb, hbegin, logEvent, attemptLog_update, hstarts,
            getD_recordAttemptStart]
          by_cases heq : b' = b
          · subst heq
            rw [attemptLog_of_some hb]
            by_cases hkey : getKey target = key
            · simp [hkey, LogEvent.apply]
            · simp [hkey, LogEvent.apply]
          · simp [heq, LogEvent.apply]
    | observeHeaders b' handle observation =>
      cases hb : w.breakers.get? b' with
      | none => simp only [operate, step, hb, logEvent, LogEvent.apply]
      | some breaker =>
        simp only [operate, step, hb, logEvent, LogEvent.apply, attemptLog_update,
          CircuitBreaker.attemptStarts_observeHeaders]
        split
        · rename_i heq
          rw [← heq, attemptLog_of_some hb]
        · rfl
    | completeAttempt b' handle outcome =>
      cases hb : w.breakers.get? b' with
      | none => simp only [operate, step, hb, logEvent, LogEvent.apply]
      | some breaker =>
        simp only [operate, step, hb, logEvent, LogEvent.apply, attemptLog_update,
          CircuitBreaker.attemptStarts_completeAttempt]
        split
        · rename_i heq
          rw [← heq, attemptLog_of_some hb]
        · rfl
    | reset b' =>
      cases hb : w.breakers.get? b' with
      | none => simp only [operate, step, hb, logEvent, LogEvent.apply]
      | some breaker =>
        simp only [operate, step, hb, logEvent, attemptLog_update,
          CircuitBreaker.attemptStarts_reset]
        split
        · rfl
        · rfl

end AttemptLog

/-! ## What the log keeps of the starts -/

/-- The width of `ATTEMPT_START_WINDOW_MS`. -/
def attemptStartWindow : ℚ := ((86400000 : Nat) : ℚ)

theorem ATTEMPT_START_WINDOW_MS_eq : ATTEMPT_START_WINDOW_MS = .fin attemptStartWindow := rfl

/-- The finite instants among numbers. -/
def instants (starts : List Number) : List ℚ :=
  starts.filterMap Number.rat?

theorem instants_snoc_fin (starts : List Number) (q : ℚ) :
    instants (starts ++ [.fin q]) = instants starts ++ [q] := by
  rw [instants, List.filterMap_append]
  rfl

theorem instants_snoc_of_not_finite (starts : List Number) {t : Number}
    (h : t.isFinite = false) : instants (starts ++ [t]) = instants starts := by
  have hnone : t.rat? = none := by
    cases t with
    | fin q => cases h
    | _ => rfl
  rw [instants, List.filterMap_append, List.filterMap_cons_none hnone, List.filterMap_nil,
    List.append_nil]
  rfl

/-- The log of a cell holds finite instants; where the starts came in order, it is what
pruning keeps of them. -/
def KeepsStarts (starts : List Number) (log : List AttemptStart) : Prop :=
  ∃ kept : List ℚ, log.map (·.at_) = kept.map .fin ∧
    ((instants starts).Pairwise (· ≤ ·) →
      Retained attemptStartWindow MAX_ATTEMPT_STARTS (instants starts) kept)

theorem KeepsStarts.nil : KeepsStarts [] [] :=
  ⟨[], rfl, fun _ => Retained.nil⟩

variable {log : List AttemptStart}

theorem map_pruneAttemptStarts {kept : List ℚ} (h : log.map (·.at_) = kept.map .fin) (now : ℚ) :
    (pruneAttemptStarts log (.fin now)).map (·.at_)
      = (retain attemptStartWindow MAX_ATTEMPT_STARTS kept now).map .fin := by
  have hdrop : (log.dropWhile fun start =>
        start.at_.lt ((Number.fin now).sub ATTEMPT_START_WINDOW_MS)).map (·.at_)
      = (kept.dropWhile fun t => decide (t < now - attemptStartWindow)).map .fin := by
    have hlog := List.dropWhile_map (f := AttemptStart.at_)
      (p := fun t => t.lt ((Number.fin now).sub ATTEMPT_START_WINDOW_MS)) (l := log)
    have hkept := List.dropWhile_map (f := Number.fin)
      (p := fun t => t.lt ((Number.fin now).sub ATTEMPT_START_WINDOW_MS)) (l := kept)
    rw [h, hkept] at hlog
    rw [ATTEMPT_START_WINDOW_MS_eq, Number.sub_fin] at hlog ⊢
    exact hlog.symm
  have hlength := congrArg List.length hdrop
  rw [List.length_map, List.length_map] at hlength
  simp only [pruneAttemptStarts, retain, List.map_drop]
  rw [hdrop, hlength]

theorem KeepsStarts.logStart {starts : List Number} {log : List AttemptStart}
    (h : KeepsStarts starts log) (at_ : Number) (estimatedInputTokens : Option Number) :
    KeepsStarts (starts ++ [at_]) (logStart log at_ estimatedInputTokens) := by
  obtain ⟨kept, hlog, hretained⟩ := h
  by_cases hat : at_.isFinite = true
  · obtain ⟨now, rfl⟩ := Number.isFinite_iff.mp hat
    refine ⟨retain attemptStartWindow MAX_ATTEMPT_STARTS (kept ++ [now]) now, ?_, fun hsorted => ?_⟩
    · rw [LlmRelay.logStart, hat, Bool.not_true, if_neg Bool.false_ne_true]
      exact map_pruneAttemptStarts (by rw [List.map_append, List.map_append, hlog]; rfl) now
    · rw [instants_snoc_fin] at hsorted ⊢
      exact (hretained (List.pairwise_append.mp hsorted).1).snoc hsorted
  · -- a start that is not finite is in no window and in no log
    rw [Bool.not_eq_true] at hat
    rw [LlmRelay.logStart, hat, Bool.not_false, KeepsStarts, instants_snoc_of_not_finite starts hat]
    exact ⟨kept, hlog, hretained⟩

theorem KeepsStarts.apply {starts : List Number} (h : KeepsStarts starts log) (event : LogEvent) :
    KeepsStarts (event.record starts) (event.apply log) := by
  cases event with
  | started at_ estimatedInputTokens => exact h.logStart at_ estimatedInputTokens
  | forgotten => exact KeepsStarts.nil
  | unrelated => exact h

/-- **After every run** the log of a cell is what pruning keeps of its starts. -/
theorem World.keepsStarts [Url] (ops : List Operation) (b : Ref) (key : String) :
    KeepsStarts (startsOn b key (history World.operate World.initial ops))
      ((finalState World.operate World.initial ops).attemptLog b key) := by
  have hinit : KeepsStarts (startsOn b key []) (World.initial.attemptLog b key) :=
    KeepsStarts.nil
  refine run_invariant
    (I := fun w events => KeepsStarts (startsOn b key events) (w.attemptLog b key))
    World.operate hinit ?_ ops
  intro w events op h
  rw [startsOn_snoc, attemptLog_operate]
  exact h.apply _

/-! ## What the count says -/

theorem walkWindow_requests (since : ℚ) {now : ℚ} {starts : List AttemptStart} {ts : List ℚ}
    (h : starts.map (·.at_) = ts.map .fin) (hsorted : ts.Pairwise (· ≥ ·))
    (hnow : ∀ t ∈ ts, t ≤ now) (requests : Nat) (tokens : Option Number) :
    (walkWindow (.fin since) (.fin now) requests tokens starts).1
      = requests + ts.countP fun t => since < t := by
  induction starts generalizing ts requests tokens with
  | nil =>
    rw [List.map_nil, eq_comm, List.map_eq_nil_iff] at h
    rw [h]
    rfl
  | cons start older ih =>
    cases ts with
    | nil => cases h
    | cons t rest =>
      rw [List.map_cons, List.map_cons, List.cons.injEq] at h
      rw [List.pairwise_cons] at hsorted
      rw [walkWindow, h.1, Number.le_fin]
      by_cases ht : t ≤ since
      · -- the walk stops, and what is older is outside too
        have hnone : (t :: rest).countP (fun u => decide (since < u)) = 0 := by
          refine List.countP_eq_zero.mpr fun u hu => ?_
          rw [decide_eq_true_eq, not_lt]
          rcases List.mem_cons.mp hu with rfl | hu
          · exact ht
          · exact (hsorted.1 u hu).le.trans ht
        rw [if_pos (decide_eq_true ht), hnone]
        rfl
      · have hle : ¬ now < t := not_lt.mpr (hnow t List.mem_cons_self)
        rw [if_neg (by simpa using ht), if_neg (by simpa using hle),
          ih h.2 hsorted.2 (fun u hu => hnow u (List.mem_cons_of_mem t hu)),
          List.countP_cons, if_pos (decide_eq_true (not_le.mp ht))]
        omega

theorem attemptsInWindow_eq (logs : AttemptStarts) (credentialId : String) (model : Option String)
    {width : ℚ} (hwidth : 0 < width) (now : ℚ) :
    let log := (logs.get? (cellKey credentialId model)).getD []
    let counted := walkWindow (.fin (now - width)) (.fin now) 0 (some 0) log.reverse
    let window := attemptsInWindow logs credentialId model (.fin width) (.fin now)
    window.requests = counted.1 ∧ window.estimatedInputTokens = counted.2 := by
  have hpositive : (Number.fin width).le 0 = false := decide_eq_false (not_le.mpr hwidth)
  cases hlog : logs.get? (cellKey credentialId model) <;>
    simp [attemptsInWindow, hlog, hpositive, walkWindow]

/-- **The count of an ordered log** is that of the trailing window. -/
theorem requests_attemptsInWindow {logs : AttemptStarts} {credentialId : String}
    {model : Option String} {kept : List ℚ} {width now : ℚ} (hwidth : 0 < width)
    (h : ((logs.get? (cellKey credentialId model)).getD []).map (·.at_) = kept.map .fin)
    (hsorted : kept.Pairwise (· ≤ ·)) (hnow : ∀ t ∈ kept, t ≤ now) :
    (attemptsInWindow logs credentialId model (.fin width) (.fin now)).requests
      = trailing width kept now := by
  have hcount := walkWindow_requests (now - width) (by rw [List.map_reverse, h, List.map_reverse])
    (List.pairwise_reverse.mpr hsorted) (fun t ht => hnow t (List.mem_reverse.mp ht)) 0 (some 0)
  rw [(attemptsInWindow_eq logs credentialId model hwidth now).1, hcount, Nat.zero_add,
    List.countP_reverse]
  rfl

end LlmRelay
