import LlmRelay.Breaker.QuotaLatest
import LlmRelay.Pacing.AttemptLog

/-!
# What a window count says

The breaker answers how many attempts on a cell began in a trailing window, and how many
tokens they were estimated at (`circuit-breaker.ts`). The log it reads has forgotten starts:
what it counts is the end of what lies in the window, and all of it unless it says otherwise.

## Main definitions

* `attemptsOn`: the attempts begun on a cell since its breaker was constructed or last reset;
* `KeepsAttempts`: a log that is the end of the attempts.

## Main results

* `World.keepsAttempts`: after every run the log of a cell is such an end;
* `attemptsInWindow_counts`: the count of a window of at most a day.
-/

namespace LlmRelay

open Ecma Transition

/-! ## The attempts on a cell -/

/-- The attempts of a cell after an event. -/
def LogEvent.recordAttempt (attempts : List AttemptStart) : LogEvent → List AttemptStart
  | started at_ estimatedInputTokens => attempts ++ [⟨at_, estimatedInputTokens⟩]
  | forgotten => []
  | unrelated => attempts

/-- The attempts begun on a cell since its breaker was constructed or last reset, each with the
estimate its caller gave. -/
def attemptsOn (b : Ref) (key : String) (events : List (Operation × Answer)) :
    List AttemptStart :=
  events.foldl (fun attempts event => (logEvent b key event).recordAttempt attempts) []

theorem attemptsOn_snoc (b : Ref) (key : String) (events : List (Operation × Answer))
    (event : Operation × Answer) :
    attemptsOn b key (events ++ [event])
      = (logEvent b key event).recordAttempt (attemptsOn b key events) := by
  rw [attemptsOn, List.foldl_append]
  rfl

theorem map_at_attemptsOn (b : Ref) (key : String) (events : List (Operation × Answer)) :
    (attemptsOn b key events).map (·.at_) = startsOn b key events := by
  induction events using List.reverseRecOn with
  | nil => rfl
  | append_singleton events event ih =>
    rw [attemptsOn_snoc, startsOn_snoc, ← ih]
    cases logEvent b key event with
    | started at_ estimatedInputTokens =>
      simp only [LogEvent.recordAttempt, LogEvent.record, List.map_append, List.map_cons,
        List.map_nil]
    | forgotten => rfl
    | unrelated => rfl

/-- An attempt as it is logged. -/
def AttemptStart.logged (attempt : AttemptStart) : AttemptStart :=
  ⟨attempt.at_, usableEstimate attempt.estimatedInputTokens⟩

/-- The log is the end of the attempts that began at a finite time, and no longer than the cap. -/
def KeepsAttempts (attempts log : List AttemptStart) : Prop :=
  log.length ≤ MAX_ATTEMPT_STARTS ∧
    ∃ dropped kept, (attempts.filter fun a => a.at_.isFinite) = dropped ++ kept ∧
      log = kept.map AttemptStart.logged

theorem KeepsAttempts.nil : KeepsAttempts [] [] :=
  ⟨Nat.zero_le _, [], [], rfl, rfl⟩

theorem exists_pruneAttemptStarts_eq_drop (log : List AttemptStart) (now : Number) :
    ∃ n, pruneAttemptStarts log now = log.drop n := by
  obtain ⟨expired, hexpired⟩ :=
    List.dropWhile_suffix (l := log) fun start => start.at_.lt (now.sub ATTEMPT_START_WINDOW_MS)
  have hdrop : (log.dropWhile fun start => start.at_.lt (now.sub ATTEMPT_START_WINDOW_MS))
      = log.drop expired.length := by
    rw [← hexpired, List.drop_left, hexpired]
  exact ⟨_, by rw [pruneAttemptStarts, hdrop, List.drop_drop]⟩

theorem length_pruneAttemptStarts_le (log : List AttemptStart) (now : Number) :
    (pruneAttemptStarts log now).length ≤ MAX_ATTEMPT_STARTS := by
  rw [pruneAttemptStarts, List.length_drop]
  omega

theorem KeepsAttempts.logStart {attempts log : List AttemptStart} (h : KeepsAttempts attempts log)
    (attempt : AttemptStart) :
    KeepsAttempts (attempts ++ [attempt])
      (logStart log attempt.at_ attempt.estimatedInputTokens) := by
  obtain ⟨hlength, dropped, kept, hattempts, rfl⟩ := h
  by_cases hat : attempt.at_.isFinite = true
  · have hlog : kept.map AttemptStart.logged ++ [attempt.logged]
        = (kept ++ [attempt]).map AttemptStart.logged := by
      rw [List.map_append]
      rfl
    obtain ⟨n, hdrop⟩ := exists_pruneAttemptStarts_eq_drop
      ((kept ++ [attempt]).map AttemptStart.logged) attempt.at_
    rw [LlmRelay.logStart, hat, Bool.not_true, if_neg Bool.false_ne_true]
    change KeepsAttempts _ (pruneAttemptStarts (_ ++ [attempt.logged]) attempt.at_)
    rw [hlog]
    refine ⟨length_pruneAttemptStarts_le _ _, dropped ++ (kept ++ [attempt]).take n,
      (kept ++ [attempt]).drop n, ?_, ?_⟩
    · rw [List.filter_append, hattempts, List.append_assoc, List.append_assoc]
      simp [hat]
    · rw [hdrop, List.map_drop]
  · -- an attempt at no finite time is not logged
    rw [Bool.not_eq_true] at hat
    rw [LlmRelay.logStart, hat, Bool.not_false]
    refine ⟨hlength, dropped, kept, ?_, rfl⟩
    rw [List.filter_append, hattempts]
    simp [hat]

theorem KeepsAttempts.apply {attempts log : List AttemptStart} (h : KeepsAttempts attempts log)
    (event : LogEvent) : KeepsAttempts (event.recordAttempt attempts) (event.apply log) := by
  cases event with
  | started at_ estimatedInputTokens => exact h.logStart ⟨at_, estimatedInputTokens⟩
  | forgotten => exact KeepsAttempts.nil
  | unrelated => exact h

/-- **After every run** the log of a cell is the end of its attempts. -/
theorem World.keepsAttempts [Url] (ops : List Operation) (b : Ref) (key : String) :
    KeepsAttempts (attemptsOn b key (history World.operate World.initial ops))
      ((finalState World.operate World.initial ops).attemptLog b key) := by
  have hinit : KeepsAttempts (attemptsOn b key []) (World.initial.attemptLog b key) :=
    KeepsAttempts.nil
  refine run_invariant
    (I := fun w events => KeepsAttempts (attemptsOn b key events) (w.attemptLog b key))
    World.operate hinit ?_ ops
  intro w events op h
  rw [attemptsOn_snoc, attemptLog_operate]
  exact h.apply _

/-! ## The sum of the estimates -/

/-- On starts in falling order, none after `now`, the sum of the walk is unknown where an estimate
in the window is. -/
theorem walkWindow_tokens_eq_none (since : ℚ) {now : ℚ} {starts : List AttemptStart} {ts : List ℚ}
    (h : starts.map (·.at_) = ts.map .fin) (hsorted : ts.Pairwise (· ≥ ·))
    (hnow : ∀ t ∈ ts, t ≤ now) (requests : Nat) (tokens : Option Number) :
    (walkWindow (.fin since) (.fin now) requests tokens starts).2 = none ↔
      tokens = none ∨ ∃ start ∈ starts, (Number.fin since).lt start.at_ = true ∧
        start.estimatedInputTokens = none := by
  induction starts generalizing ts requests tokens with
  | nil => simp [walkWindow]
  | cons start older ih =>
    cases ts with
    | nil => cases h
    | cons t rest =>
      rw [List.map_cons, List.map_cons, List.cons.injEq] at h
      obtain ⟨hstart, holder⟩ := h
      rw [List.pairwise_cons] at hsorted
      rw [walkWindow, hstart, Number.le_fin]
      by_cases ht : t ≤ since
      · rw [if_pos (decide_eq_true ht)]
        refine ⟨Or.inl, fun hunknown => hunknown.resolve_right ?_⟩
        -- nothing from here on is inside
        rintro ⟨outside, hmem, hlt, -⟩
        have hat : outside.at_ ∈ (t :: rest).map Number.fin := by
          rw [List.map_cons, ← hstart, ← holder]
          exact List.mem_map_of_mem (f := AttemptStart.at_) hmem
        obtain ⟨u, hu, hutime⟩ := List.mem_map.mp hat
        rw [← hutime, Number.lt_fin, decide_eq_true_eq] at hlt
        rcases List.mem_cons.mp hu with rfl | hu
        · exact absurd hlt (not_lt.mpr ht)
        · exact absurd hlt (not_lt.mpr ((hsorted.1 u hu).trans ht))
      · have hle : ¬ now < t := not_lt.mpr (hnow t List.mem_cons_self)
        have hinside : (Number.fin since).lt start.at_ = true := by
          rw [hstart]
          exact decide_eq_true (not_le.mp ht)
        rw [if_neg (by simpa using ht), if_neg (by simpa using hle),
          ih holder hsorted.2 (fun u hu => hnow u (List.mem_cons_of_mem t hu))]
        simp only [List.exists_mem_cons_iff, hinside]
        cases tokens <;> cases start.estimatedInputTokens <;> simp [addEstimate]

variable {logs : AttemptStarts} {credentialId : String} {model : Option String}

/-- **The sum of an ordered log** is unknown where an estimate in the trailing window is. -/
theorem estimatedInputTokens_attemptsInWindow {kept : List ℚ} {width now : ℚ} (hwidth : 0 < width)
    (h : ((logs.get? (cellKey credentialId model)).getD []).map (·.at_) = kept.map .fin)
    (hsorted : kept.Pairwise (· ≤ ·)) (hnow : ∀ t ∈ kept, t ≤ now) :
    (attemptsInWindow logs credentialId model (.fin width) (.fin now)).estimatedInputTokens = none ↔
      ∃ start ∈ (logs.get? (cellKey credentialId model)).getD [],
        (Number.fin (now - width)).lt start.at_ = true ∧ start.estimatedInputTokens = none := by
  have htokens := walkWindow_tokens_eq_none (now - width)
    (by rw [List.map_reverse, h, List.map_reverse]) (List.pairwise_reverse.mpr hsorted)
    (fun t ht => hnow t (List.mem_reverse.mp ht)) 0 (some 0)
  rw [(attemptsInWindow_eq logs credentialId model hwidth now).2, htokens]
  simp only [reduceCtorEq, false_or, List.mem_reverse]

variable {now : Number}

theorem saturated_attemptsInWindow {width : ℚ} (hwidth : 0 < width) :
    (attemptsInWindow logs credentialId model (.fin width) now).saturated
      = decide (MAX_ATTEMPT_STARTS ≤ ((logs.get? (cellKey credentialId model)).getD []).length ∧
          (attemptsInWindow logs credentialId model (.fin width) now).requests
            = ((logs.get? (cellKey credentialId model)).getD []).length) := by
  have hpositive : (Number.fin width).le 0 = false := decide_eq_false (not_le.mpr hwidth)
  cases hlog : logs.get? (cellKey credentialId model) with
  | none =>
    rw [attemptsInWindow, hlog]
    exact (decide_eq_false fun h => absurd h.1 (by decide)).symm
  | some log =>
    simp only [attemptsInWindow, hlog, hpositive, Number.isFinite_fin, Bool.not_true,
      Bool.or_self, Bool.false_eq_true, if_false, Option.getD_some]

theorem attemptsInWindow_of_walk_eq_zero {windowMs : Number}
    (h : ∀ log, logs.get? (cellKey credentialId model) = some log →
      walkWindow (now.sub windowMs) now 0 (some 0) log.reverse = (0, some 0)) :
    attemptsInWindow logs credentialId model windowMs now = ⟨0, some 0, false⟩ := by
  cases hlog : logs.get? (cellKey credentialId model) with
  | none => rw [attemptsInWindow, hlog]
  | some log =>
    simp only [attemptsInWindow, hlog, h log hlog]
    split
    · rfl
    · refine congrArg (AttemptWindow.mk 0 (some 0)) (decide_eq_false ?_)
      rintro ⟨hcap, hlength⟩
      rw [← hlength] at hcap
      exact absurd hcap (by decide)

/-! ## The window -/

/-- Did the attempt begin in the window? -/
def inWindow (windowMs now : Number) (attempt : AttemptStart) : Bool :=
  (now.sub windowMs).lt attempt.at_ && attempt.at_.le now

/-- The answer about a window that holds the attempts `inside`: the last of them are counted, all
of them unless the answer is saturated, and their sum is unknown where one of them is. -/
def AttemptWindow.Counts (window : AttemptWindow) (inside : List AttemptStart) : Prop :=
  (window.requests = inside.length ∨ window.saturated = true ∧ window.requests ≤ inside.length) ∧
    (window.estimatedInputTokens = none ↔
      ∃ attempt ∈ inside.drop (inside.length - window.requests),
        usableEstimate attempt.estimatedInputTokens = none)

theorem AttemptWindow.counts_nil : (⟨0, some 0, false⟩ : AttemptWindow).Counts [] :=
  ⟨.inl rfl, by simp⟩

theorem inWindow_eq_false {windowMs : Number} (hshort : windowMs.le ATTEMPT_START_WINDOW_MS = true)
    (h : windowMs.isFinite = false ∨ windowMs.le 0 = true) (attempt : AttemptStart) :
    inWindow windowMs now attempt = false := by
  obtain ⟨at_, estimatedInputTokens⟩ := attempt
  unfold inWindow
  cases windowMs with
  | nan => cases hshort
  | posInf => cases hshort
  | negInf => cases now <;> cases at_ <;> rfl
  | fin width =>
    have hwidth : width ≤ 0 := by
      rcases h with hinf | hle
      · cases hinf
      · exact of_decide_eq_true hle
    cases now with
    | fin n =>
      cases at_ with
      | fin t =>
        rw [Number.sub_fin, Number.lt_fin, Number.le_fin]
        by_cases ht : t ≤ n
        · have hnot : ¬ n - width < t :=
            not_lt.mpr (ht.trans ((le_sub_self_iff n).mpr hwidth))
          rw [decide_eq_false hnot, Bool.false_and]
        · rw [decide_eq_false ht, Bool.and_false]
      | _ => rfl
    | _ => cases at_ <;> rfl

section Counts

variable {windowMs now : Number} {attempts log : List AttemptStart}

theorem window_of_not_finite (width : ℚ) (hfinite : ∀ a ∈ attempts, a.at_.isFinite = true)
    (hnow : ∀ a ∈ attempts, a.at_.le now = true) (hlog : KeepsAttempts attempts log)
    (h : now.isFinite = false) :
    attempts.filter (inWindow (.fin width) now) = [] ∧
      walkWindow (now.sub (.fin width)) now 0 (some 0) log.reverse = (0, some 0) := by
  obtain ⟨-, dropped, kept, hkept, rfl⟩ := hlog
  have hmem : ∀ a ∈ kept, a ∈ attempts := fun a ha =>
    List.mem_of_mem_filter (hkept ▸ List.mem_append_right dropped ha)
  by_cases hinf : now = .posInf
  · subst hinf
    refine ⟨List.filter_eq_nil_iff.mpr fun a _ => ?_, ?_⟩
    · rw [Bool.not_eq_true]
      unfold inWindow
      cases a.at_ <;> rfl
    · -- the first start of the walk is no later than the end of time
      cases hlast : (kept.map AttemptStart.logged).reverse with
      | nil => rfl
      | cons start older =>
        have hstart : start ∈ (kept.map AttemptStart.logged).reverse := by
          rw [hlast]
          exact List.mem_cons_self
        obtain ⟨a, ha, rfl⟩ := List.mem_map.mp (List.mem_reverse.mp hstart)
        obtain ⟨q, hq⟩ := Number.isFinite_iff.mp (hfinite a (hmem a ha))
        rw [AttemptStart.logged, hq]
        rfl
  · -- no attempt is no later than `now`
    have hnone : attempts = [] := by
      refine List.eq_nil_iff_forall_not_mem.mpr fun a ha => ?_
      obtain ⟨q, hq⟩ := Number.isFinite_iff.mp (hfinite a ha)
      have hle := hnow a ha
      rw [hq] at hle
      cases now with
      | fin n => cases h
      | posInf => exact hinf rfl
      | nan => cases hle
      | negInf => cases hle
    have hkeptnil : kept = [] := List.eq_nil_iff_forall_not_mem.mpr fun a ha => by
      have := hmem a ha
      rw [hnone] at this
      exact List.not_mem_nil this
    rw [hnone, hkeptnil]
    exact ⟨rfl, rfl⟩

theorem length_filter_inWindow (width : ℚ) {n : ℚ} {ts : List ℚ}
    (hts : attempts.map (·.at_) = ts.map .fin) (hnow : ∀ a ∈ attempts, a.at_.le (.fin n) = true) :
    (attempts.filter (inWindow (.fin width) (.fin n))).length = trailing width ts n := by
  have hcount : ∀ a ∈ attempts,
      inWindow (.fin width) (.fin n) a = (Number.fin (n - width)).lt a.at_ := fun a ha => by
    rw [inWindow, hnow a ha, Bool.and_true, Number.sub_fin]
  rw [List.filter_congr hcount, ← List.countP_eq_length_filter]
  have hmap : attempts.countP (fun a => (Number.fin (n - width)).lt a.at_)
      = (attempts.map (·.at_)).countP (Number.fin (n - width)).lt := by
    rw [List.countP_map]
    rfl
  rw [hmap, hts, List.countP_map]
  rfl

theorem map_at_eq_instants (hfinite : ∀ a ∈ attempts, a.at_.isFinite = true) :
    attempts.map (·.at_) = (instants (attempts.map (·.at_))).map .fin := by
  induction attempts with
  | nil => rfl
  | cons a rest ih =>
    obtain ⟨q, hq⟩ := Number.isFinite_iff.mp (hfinite a List.mem_cons_self)
    have hrest := ih fun a' ha' => hfinite a' (List.mem_cons_of_mem a ha')
    rw [List.map_cons, hq, instants]
    exact congrArg (Number.fin q :: ·) hrest

theorem attemptsInWindow_counts_of_finite {width n : ℚ} (hpos : 0 < width)
    (hshort : width ≤ attemptStartWindow) (hfinite : ∀ a ∈ attempts, a.at_.isFinite = true)
    (hsorted : attempts.Pairwise fun a a' => a.at_.le a'.at_ = true)
    (hnow : ∀ a ∈ attempts, a.at_.le (.fin n) = true)
    (hlog : KeepsAttempts attempts ((logs.get? (cellKey credentialId model)).getD []))
    (hstarts : KeepsStarts (attempts.map (·.at_))
      ((logs.get? (cellKey credentialId model)).getD [])) :
    (attemptsInWindow logs credentialId model (.fin width) (.fin n)).Counts
      (attempts.filter (inWindow (.fin width) (.fin n))) := by
  obtain ⟨hcap, dropped, kept, hattempts, hkept⟩ := hlog
  obtain ⟨ks, hks, hretained⟩ := hstarts
  rw [List.filter_eq_self.mpr hfinite] at hattempts
  have hts := map_at_eq_instants hfinite
  set ts := instants (attempts.map (·.at_))
  -- the instants are in order, and none is after `n`
  have htsorted : ts.Pairwise (· ≤ ·) := by
    have hmap : (attempts.map (·.at_)).Pairwise fun t t' => t.le t' = true :=
      List.pairwise_map.mpr hsorted
    rw [hts, List.pairwise_map] at hmap
    exact hmap.imp fun h => of_decide_eq_true h
  have htnow : ∀ t ∈ ts, t ≤ n := by
    intro t ht
    have hmem : Number.fin t ∈ attempts.map (·.at_) := by
      rw [hts]
      exact List.mem_map_of_mem ht
    obtain ⟨a, ha, hat⟩ := List.mem_map.mp hmem
    have hle := hnow a ha
    rw [hat] at hle
    exact of_decide_eq_true hle
  obtain ⟨old, hall, hmissing⟩ := hretained htsorted
  have hksorted : ks.Pairwise (· ≤ ·) := by
    rw [hall] at htsorted
    exact (List.pairwise_append.mp htsorted).2.1
  have hknow : ∀ t ∈ ks, t ≤ n := fun t ht =>
    htnow t (by rw [hall]; exact List.mem_append_right old ht)
  have hkeptnow : ∀ a ∈ kept, a.at_.le (.fin n) = true := fun a ha =>
    hnow a (by rw [hattempts]; exact List.mem_append_right dropped ha)
  have hkeptts : kept.map (·.at_) = ks.map .fin := by
    rw [← hks, hkept, List.map_map]
    rfl
  -- what is counted is what the window holds of the kept attempts
  have hrequests := requests_attemptsInWindow hpos hks hksorted hknow
  have hcounted := length_filter_inWindow width hkeptts hkeptnow
  have hinside := length_filter_inWindow width hts hnow
  have hsplit : attempts.filter (inWindow (.fin width) (.fin n))
      = dropped.filter (inWindow (.fin width) (.fin n))
        ++ kept.filter (inWindow (.fin width) (.fin n)) := by
    rw [hattempts, List.filter_append]
  constructor
  · rw [hrequests, hinside]
    by_cases hfull : trailing width ks n < MAX_ATTEMPT_STARTS
    · left
      exact (Retained.trailing_eq ⟨old, hall, hmissing⟩ htsorted htnow hshort le_rfl hfull).symm
    · right
      refine ⟨?_, ?_⟩
      · rw [saturated_attemptsInWindow hpos]
        have hlength := congrArg List.length hks
        rw [List.length_map, List.length_map] at hlength
        have hle : trailing width ks n ≤ ks.length := List.countP_le_length
        exact decide_eq_true ⟨by omega, by omega⟩
      · rw [hall, trailing, trailing, List.countP_append]
        exact Nat.le_add_left _ _
  · rw [estimatedInputTokens_attemptsInWindow hpos hks hksorted hknow, hkept, hsplit, hrequests,
      ← hcounted, List.length_append, Nat.add_sub_cancel, List.drop_left]
    simp only [List.mem_map, List.mem_filter, exists_exists_and_eq_and, and_assoc]
    refine exists_congr fun a => and_congr_right fun ha => ?_
    rw [inWindow, hkeptnow a ha, Bool.and_true, Number.sub_fin]
    rfl

end Counts

/-- **What a window count says.** In every run, about a cell whose attempts began at finite times
in order, and a window of at most a day that ends no earlier than the last of them: the number
reported is that of the attempts in the window, or it is a lower bound and reported as saturated;
and the sum is unknown exactly where the estimate of a counted attempt is. -/
theorem attemptsInWindow_counts [Url] (ops : List Operation) (b : Ref) (credentialId : String)
    (model : Option String) (windowMs now : Number)
    (hfinite : ∀ a ∈ attemptsOn b (cellKey credentialId model)
      (history World.operate World.initial ops), a.at_.isFinite = true)
    (hsorted : (attemptsOn b (cellKey credentialId model)
      (history World.operate World.initial ops)).Pairwise fun a a' => a.at_.le a'.at_ = true)
    (hshort : windowMs.le ATTEMPT_START_WINDOW_MS = true)
    (hnow : ∀ a ∈ attemptsOn b (cellKey credentialId model)
      (history World.operate World.initial ops), a.at_.le now = true) :
    (attemptsInWindow ((finalState World.operate World.initial ops).attemptStartsOf b) credentialId
        model windowMs now).Counts
      ((attemptsOn b (cellKey credentialId model)
        (history World.operate World.initial ops)).filter (inWindow windowMs now)) := by
  have hlog := World.keepsAttempts ops b (cellKey credentialId model)
  have hstarts := World.keepsStarts ops b (cellKey credentialId model)
  rw [← map_at_attemptsOn] at hstarts
  unfold World.attemptLog at hlog hstarts
  set attempts := attemptsOn b (cellKey credentialId model)
    (history World.operate World.initial ops)
  set logs := (finalState World.operate World.initial ops).attemptStartsOf b
  by_cases hwidth : windowMs.isFinite = false ∨ windowMs.le 0 = true
  · have hnone : attempts.filter (inWindow windowMs now) = [] :=
      List.filter_eq_nil_iff.mpr fun a _ => by
        rw [inWindow_eq_false hshort hwidth, Bool.not_eq_true]
    have hguard : (!windowMs.isFinite || windowMs.le 0) = true := by
      simpa using hwidth
    have hzero : attemptsInWindow logs credentialId model windowMs now = ⟨0, some 0, false⟩ := by
      unfold attemptsInWindow
      split
      · rfl
      · rw [if_pos hguard]
    rw [hnone, hzero]
    exact AttemptWindow.counts_nil
  · rw [not_or, Bool.not_eq_false, Bool.not_eq_true] at hwidth
    obtain ⟨width, rfl⟩ := Number.isFinite_iff.mp hwidth.1
    have hpos : 0 < width := not_le.mp (of_decide_eq_false hwidth.2)
    by_cases hfin : now.isFinite = true
    · obtain ⟨n, rfl⟩ := Number.isFinite_iff.mp hfin
      exact attemptsInWindow_counts_of_finite hpos (of_decide_eq_true hshort) hfinite hsorted hnow
        hlog hstarts
    · rw [Bool.not_eq_true] at hfin
      obtain ⟨hnone, hwalk⟩ := window_of_not_finite width hfinite hnow hlog hfin
      rw [hnone, attemptsInWindow_of_walk_eq_zero]
      · exact AttemptWindow.counts_nil
      · intro log hget
        rw [hget] at hwalk
        exact hwalk

/-- Two attempts ten seconds apart, the later one without an estimate. -/
def twoAttempts : List Operation :=
  [.lifecycle .construct, .lifecycle (.beginAttempt 0 sampleTarget ⟨some 0, some 5⟩ 0),
    .lifecycle (.beginAttempt 0 sampleTarget ⟨some 10000, none⟩ 10000)]

theorem attemptsInWindow_counts_two :
    (attemptsInWindow
        ((finalState (@World.operate noUrl) World.initial twoAttempts).attemptStartsOf 0)
        "p#default" (some "m") 60000 30000).Counts
      ((attemptsOn 0 (cellKey "p#default" (some "m"))
        (history (@World.operate noUrl) World.initial twoAttempts)).filter
          (inWindow 60000 30000)) :=
  @attemptsInWindow_counts noUrl twoAttempts 0 "p#default" (some "m") 60000 30000
    (by decide +kernel) (by decide +kernel) (by decide +kernel) (by decide +kernel)

end LlmRelay
