import LlmRelay.Accounting.Aggregates

/-!
# The terminal record of a request

A request is recorded by whichever comes last, the end of its response or that of its last
attempt (`accounting-state.ts`). The lifecycle (`accounting.ts`) throws where it is closed with
an outcome that its attempts do not bear out, and the state swallows the exception.

## Main definitions

* `AccountingRequest`: the lifecycle, the end that was recorded included;
* `RequestState`, `finalizeIfReady`: the state, and the sweep of a finished response;
* `Disputed`: the attempt that answered ended otherwise than the response.

## Main results

* `Consistent.sweep`: the sweep records what is not disputed, once;
* `request_recorded_iff`: so does every run.
-/

namespace LlmRelay.Accounting

open Ecma

structure AttemptState where
  role : AttemptRole
  attribution : Attribution
  completed : Option Outcome

/-- What a request is recorded to have ended with. -/
structure RequestEnd where
  outcome : Outcome
  failureKind : Option Text
  attribution : Attribution
  winningAttemptId : Option Nat
  commitAttemptId : Option Nat

/-- `AccountingRequestLifecycle`; an attempt is known by its place. -/
structure AccountingRequest where
  attempts : List AttemptState
  requestCommitAttemptId : Option Nat
  requestCompleted : Option RequestEnd
  recorded : List RequestEnd

namespace AccountingRequest

variable (r : AccountingRequest)

/-- `startAttempt`; `none` is an exception. -/
def startAttempt (role : AttemptRole) (attribution : Attribution) : Option AccountingRequest :=
  if r.requestCompleted.isSome then none
  else some { r with attempts := r.attempts ++ [⟨role, attribution, none⟩] }

/-- `timed`: the time of the commit is valid, and not before the start. -/
def markAttemptCommitted (h : Nat) (timed : Bool) : AccountingRequest × Bool :=
  match r.attempts[h]? with
  | none => (r, false)
  | some a =>
    if a.completed.isSome ∨ a.role ≠ .serve ∨ r.requestCommitAttemptId.isSome ∨ timed = false then
      (r, false)
    else ({ r with requestCommitAttemptId := some h }, true)

/-- An exception leaves the lifecycle as it is; `valid`: times and tokens pass their checks. -/
def completeAttempt (h : Nat) (outcome : Outcome) (failureKind : Option Text) (valid : Bool) :
    AccountingRequest :=
  match r.attempts[h]? with
  | none => r
  | some a =>
    if a.completed.isSome ∨ r.requestCompleted.isSome ∨ (outcome = .success ∧ failureKind.isSome)
        ∨ valid = false then r
    else { r with attempts := r.attempts.set h { a with completed := some outcome } }

def isSuccessfulServe (a : AttemptState) : Bool :=
  a.role = .serve ∧ a.completed = some .success

/-- The attempt that committed, or else the first that succeeded. -/
def winner : Option AttemptState :=
  match r.requestCommitAttemptId with
  | some h => r.attempts[h]?
  | none => r.attempts.find? isSuccessfulServe

/-- The checks of `complete` that throw. -/
def refuses (outcome : Outcome) (failureKind : Option Text) (attribution : Option Attribution) :
    Bool :=
  r.attempts.any (·.completed.isNone) = true
    ∨ (∃ a ∈ r.winner, ∃ explicit ∈ attribution, explicit ≠ a.attribution)
    ∨ (outcome = .success ∧ (failureKind.isSome ∨ r.winner = none))
    ∨ (outcome ≠ .success ∧
      ∃ a ∈ r.winner, r.requestCommitAttemptId = none ∨ a.completed ≠ some outcome)

/-- The outcome that `complete` records; `none` is an exception. -/
def accepted (outcome : Option Outcome) (failureKind : Option Text)
    (attribution : Option Attribution) : Option Outcome :=
  (outcome.or (r.winner.bind (·.completed))).filter fun outcome =>
    !r.refuses outcome failureKind attribution

/-- `complete`, where no winner is named. -/
def complete (outcome : Option Outcome) (failureKind : Option Text)
    (attribution : Option Attribution) : AccountingRequest :=
  match r.requestCompleted, r.accepted outcome failureKind attribution with
  | none, some outcome =>
    let end_ : RequestEnd :=
      { outcome, failureKind
        attribution := ((r.winner.map (·.attribution)).or attribution).getD .unknown
        winningAttemptId := r.requestCommitAttemptId.or (r.attempts.findIdx? isSuccessfulServe)
        commitAttemptId := r.requestCommitAttemptId }
    { r with requestCompleted := some end_, recorded := r.recorded ++ [end_] }
  | _, _ => r

end AccountingRequest

inductive ResponseTerminal where
  | finished | cancelled
  deriving DecidableEq

/-- `RequestAccountingState`. -/
structure RequestState where
  request : AccountingRequest
  active : List Nat
  responseTerminal : Option ResponseTerminal
  finalized : Bool
  successfulServe : Bool
  committedServeAttribution : Option Attribution
  lastFailure : Text
  lastAttribution : Attribution

namespace RequestState

variable (s : RequestState)

def start (role : AttemptRole) (attribution : Attribution) : RequestState :=
  if s.finalized = true ∨ s.responseTerminal = some .cancelled then s
  else match s.request.startAttempt role attribution with
    | none => s
    | some request =>
      { s with
        request
        active := s.active ++ [s.request.attempts.length]
        lastAttribution := attribution }

/-- Only an attempt that serves is marked. -/
def markCommitted (h : Nat) (timed : Bool) : RequestState :=
  if (s.request.markAttemptCommitted h timed).2 then
    { s with
      request := (s.request.markAttemptCommitted h timed).1
      committedServeAttribution := s.request.attempts[h]?.map (·.attribution) }
  else s

/-- `complete` without its last line, which asks whether the request is ready. -/
def close (h : Nat) (outcome : Outcome) (failureKind : Option Text) (valid : Bool) : RequestState :=
  match s.request.attempts[h]? with
  | none => s
  | some a =>
    { s with
      request := s.request.completeAttempt h outcome failureKind valid
      active := s.active.filter (· ≠ h)
      lastAttribution := a.attribution
      successfulServe := s.successfulServe || (a.role = .serve ∧ outcome = .success)
      lastFailure := if outcome = .success then s.lastFailure else failureKind.getD s.lastFailure }

/-- What `finalizeIfReady` calls `complete` with. -/
def closing : ResponseTerminal → Option Outcome × Option Text × Option Attribution
  | .cancelled => (some .cancelled, some (text "aborted"),
      some (s.committedServeAttribution.getD s.lastAttribution))
  | .finished =>
    if s.successfulServe then (none, none, none)
    else (some .error, some s.lastFailure,
      some (s.committedServeAttribution.getD s.lastAttribution))

/-- The end of `finalizeIfReady`. -/
def settle (terminal : ResponseTerminal) : RequestState :=
  { s with
    finalized := true
    request := s.request.complete (s.closing terminal).1 (s.closing terminal).2.1
      (s.closing terminal).2.2 }

/-- `finalizeIfReady`; the attempts that the sweep completes ask again, `fuel` deep. -/
def finalizeWith : Nat → RequestState → RequestState
  | fuel, s =>
    match s.finalized, s.responseTerminal, s.active, fuel with
    | false, some terminal, [], _ => s.settle terminal
    | false, some .finished, active, fuel + 1 =>
      (active.foldl (fun s h => finalizeWith fuel (s.close h .error (some (text "unknown")) true))
        s).settle .finished
    | _, _, _, _ => s

def finalizeIfReady : RequestState :=
  finalizeWith s.active.length s

end RequestState

/-- A call, or an event of the response. -/
inductive RequestEvent where
  | start (role : AttemptRole) (attribution : Attribution)
  | markCommitted (h : Nat) (timed : Bool)
  | complete (h : Nat) (outcome : Outcome) (failureKind : Option Text) (valid : Bool)
  | finish
  | close (writableFinished : Bool)

namespace RequestState

def step (s : RequestState) : RequestEvent → RequestState
  | .start role attribution => s.start role attribution
  | .markCommitted h timed => s.markCommitted h timed
  | .complete h outcome failureKind valid => (s.close h outcome failureKind valid).finalizeIfReady
  | .finish =>
    { s with responseTerminal := s.responseTerminal.or (some .finished) }.finalizeIfReady
  | .close writableFinished =>
    { s with
      responseTerminal := s.responseTerminal.or
        (some (if writableFinished then .finished else .cancelled)) }.finalizeIfReady

def initial : RequestState where
  request := ⟨[], none, none, []⟩
  active := []
  responseTerminal := none
  finalized := false
  successfulServe := false
  committedServeAttribution := none
  lastFailure := text "unknown"
  lastAttribution := .unknown

/-! ## What is disputed -/

/-- Some attempt serves, and has succeeded. -/
def Served (s : RequestState) : Prop :=
  ∃ a ∈ s.request.attempts, AccountingRequest.isSuccessfulServe a = true

/-- The winner ended otherwise than the response: it was not cancelled with it, or no attempt
succeeded, and it ended with no error. -/
def Disputed (s : RequestState) : Prop :=
  match s.responseTerminal with
  | none => False
  | some .cancelled => ∃ a ∈ s.request.winner,
      s.request.requestCommitAttemptId = none ∨ a.completed ≠ some .cancelled
  | some .finished => ¬s.Served ∧ ∃ a ∈ s.request.winner, a.completed ≠ some .error

/-- What the state keeps of its attempts. -/
structure Consistent (s : RequestState) : Prop where
  active : ∀ h, h ∈ s.active ↔ ∃ a, s.request.attempts[h]? = some a ∧ a.completed = none
  served : s.successfulServe = true ↔ s.Served
  committed : ∀ h, s.request.requestCommitAttemptId = some h →
    ∃ a, s.request.attempts[h]? = some a ∧ s.committedServeAttribution = some a.attribution

/-- Nothing is recorded. -/
def Unfiled (s : RequestState) : Prop :=
  s.request.requestCompleted = none ∧ s.request.recorded = []

/-- What is not disputed is recorded once. -/
def Filed (s : RequestState) : Prop :=
  (s.Disputed ∧ s.Unfiled) ∨
    (¬s.Disputed ∧ s.request.requestCompleted.isSome ∧ s.request.recorded.length = 1)

variable {s : RequestState} {h : Nat} {outcome : Outcome} {failureKind : Option Text} {valid : Bool}
  {terminal : ResponseTerminal}

theorem Consistent.completed (hs : s.Consistent) (hactive : s.active = []) :
    ∀ a ∈ s.request.attempts, a.completed ≠ none := by
  intro a ha hnone
  obtain ⟨h, hget⟩ := List.mem_iff_getElem?.mp ha
  have hmem := (hs.active h).mpr ⟨a, hget, hnone⟩
  rw [hactive] at hmem
  cases hmem

/-- The winner is the attempt that committed, or one that succeeded. -/
theorem Consistent.winner (hs : s.Consistent) :
    (s.request.winner = none → ¬s.Served) ∧ ∀ a ∈ s.request.winner, a ∈ s.request.attempts ∧
      ((s.request.requestCommitAttemptId = none ∧ AccountingRequest.isSuccessfulServe a = true) ∨
        (s.request.requestCommitAttemptId ≠ none
          ∧ s.committedServeAttribution = some a.attribution)) := by
  unfold AccountingRequest.winner Served
  cases hcommit : s.request.requestCommitAttemptId with
  | none =>
    refine ⟨by simp, fun a ha => ?_⟩
    exact ⟨List.mem_of_find?_eq_some ha, .inl ⟨rfl, List.find?_some ha⟩⟩
  | some h =>
    obtain ⟨b, hget, hattribution⟩ := hs.committed h hcommit
    refine ⟨fun hnone => by simp [hget] at hnone, fun a ha => ?_⟩
    obtain rfl := Option.some.inj (hget.symm.trans ha)
    exact ⟨List.mem_of_getElem? hget, .inr ⟨by simp, hattribution⟩⟩

/-- A request is accepted with what `finalizeIfReady` states exactly where it is not disputed. -/
theorem Consistent.accepted_iff (hs : s.Consistent) (hactive : s.active = [])
    (hterminal : s.responseTerminal = some terminal) :
    s.request.accepted (s.closing terminal).1 (s.closing terminal).2.1 (s.closing terminal).2.2 = none
      ↔ s.Disputed := by
  have hall := hs.completed hactive
  obtain ⟨hnone, hwinner⟩ := hs.winner
  have hserved := hs.served
  unfold AccountingRequest.isSuccessfulServe at hwinner
  unfold AccountingRequest.accepted AccountingRequest.refuses Disputed closing
  rw [hterminal]
  cases terminal with
  | cancelled =>
    simp
    grind
  | finished =>
    cases hsuccess : s.successfulServe with
    | false =>
      simp
      grind
    | true =>
      have hserves := hserved.mp hsuccess
      -- the winner is known, and so is what it ended with
      obtain ⟨a, ha⟩ := Option.ne_none_iff_exists'.mp fun hno => hnone hno hserves
      obtain ⟨o, ho⟩ := Option.ne_none_iff_exists'.mp (hall a (hwinner a ha).1)
      simp [ha, ho, hserves]
      grind

theorem disputed_settle : (s.settle terminal).Disputed ↔ s.Disputed := by
  unfold settle AccountingRequest.complete
  dsimp only
  split <;> rfl

/-- **The end of a request**: it is recorded once, unless it is disputed. -/
theorem Consistent.settle (hs : s.Consistent) (hactive : s.active = [])
    (hterminal : s.responseTerminal = some terminal) (hopen : s.Unfiled ∨ s.Filed) :
    (s.settle terminal).Filed := by
  have hiff := hs.accepted_iff hactive hterminal
  unfold Filed
  rw [disputed_settle, Unfiled, RequestState.settle, AccountingRequest.complete]
  rcases hopen.elim .inl (·.imp And.right id) with ⟨hnone, hrecorded⟩ | ⟨hd, hsome, hlength⟩
  · cases haccepted : s.request.accepted (s.closing terminal).1 (s.closing terminal).2.1
        (s.closing terminal).2.2 with
    | none => exact .inl ⟨hiff.mp haccepted, by simp [hnone, hrecorded]⟩
    | some outcome =>
      exact .inr ⟨fun hd => by simp [hiff.mpr hd] at haccepted, by simp [hnone, hrecorded]⟩
  · obtain ⟨e, he⟩ := Option.isSome_iff_exists.mp hsome
    exact .inr ⟨hd, by simp [he, hlength]⟩

theorem Consistent.settled (hs : s.Consistent) : (s.settle terminal).Consistent := by
  unfold RequestState.settle AccountingRequest.complete
  dsimp only
  split <;> exact ⟨hs.active, hs.served, hs.committed⟩

/-! ## The calls -/

theorem completeAttempt_of_completed {r : AccountingRequest}
    (hall : ∀ a ∈ r.attempts, a.completed ≠ none) :
    r.completeAttempt h outcome failureKind valid = r := by
  unfold AccountingRequest.completeAttempt
  split
  · rfl
  · rename_i a hget
    exact if_pos (.inl (Option.isSome_iff_ne_none.mpr (hall a (List.mem_of_getElem? hget))))

theorem Consistent.close (hs : s.Consistent) (outcome : Outcome) (failureKind : Option Text)
    (hopen : s.Unfiled) (hactive : h ∈ s.active) (hpair : outcome = .success → failureKind = none) :
    (s.close h outcome failureKind true).Consistent ∧
      (s.close h outcome failureKind true).Unfiled ∧
      (s.close h outcome failureKind true).active = s.active.filter (· ≠ h) := by
  obtain ⟨a, hget, hnone⟩ := (hs.active h).mp hactive
  have hlt := (List.getElem?_eq_some_iff.mp hget).1
  have hrequest : s.request.completeAttempt h outcome failureKind true
      = { s.request with attempts := s.request.attempts.set h { a with completed := some outcome } } := by
    simp only [AccountingRequest.completeAttempt, hget]
    exact if_neg (by simpa [hnone, hopen.1] using fun heq => by rw [hpair heq])
  simp only [RequestState.close, hget, hrequest]
  refine ⟨⟨fun k => ?_, ?_, fun k hk => ?_⟩, hopen, trivial⟩
  · by_cases heq : k = h
    · subst heq
      simp [hlt]
    · simp [heq, Ne.symm heq, hs.active k]
  · rw [Bool.or_eq_true]
    constructor
    · rintro (hold | hnew)
      · obtain ⟨b, hb, hsuccess⟩ := hs.served.mp hold
        obtain ⟨k, hk⟩ := List.mem_iff_getElem?.mp hb
        have hne : h ≠ k := by
          rintro rfl
          obtain rfl := Option.some.inj (hget.symm.trans hk)
          simp [AccountingRequest.isSuccessfulServe, hnone] at hsuccess
        exact ⟨b, List.mem_iff_getElem?.mpr ⟨k, (List.getElem?_set_ne hne).trans hk⟩, hsuccess⟩
      · exact ⟨_, List.mem_set hlt _, by simpa [AccountingRequest.isSuccessfulServe] using hnew⟩
    · rintro ⟨b, hb, hsuccess⟩
      rcases List.mem_or_eq_of_mem_set hb with hold | rfl
      · exact .inl (hs.served.mpr ⟨b, hold, hsuccess⟩)
      · exact .inr (by simpa [AccountingRequest.isSuccessfulServe] using hsuccess)
  · obtain ⟨b, hb, hattribution⟩ := hs.committed k hk
    by_cases heq : k = h
    · subst heq
      obtain rfl := Option.some.inj (hget.symm.trans hb)
      exact ⟨_, List.getElem?_set_self hlt, hattribution⟩
    · exact ⟨b, by simp [Ne.symm heq, hb], hattribution⟩

theorem close_frame (s : RequestState) (h : Nat) (outcome : Outcome) (failureKind : Option Text)
    (valid : Bool) :
    (s.close h outcome failureKind valid).finalized = s.finalized ∧
      (s.close h outcome failureKind valid).responseTerminal = s.responseTerminal := by
  unfold RequestState.close
  split <;> exact ⟨rfl, rfl⟩

/-- The response has ended, and the request is closed. -/
def Swept (s : RequestState) (terminal : ResponseTerminal) : Prop :=
  s.finalized = true ∧ s.responseTerminal = some terminal ∧ s.Consistent ∧ s.active = [] ∧ s.Filed

theorem Consistent.swept (hs : s.Consistent) (hactive : s.active = [])
    (hterminal : s.responseTerminal = some terminal) (hopen : s.Unfiled ∨ s.Filed) :
    (s.settle terminal).Swept terminal :=
  ⟨rfl, hterminal, hs.settled, hactive, hs.settle hactive hterminal hopen⟩

/-- What the sweep completes again changes nothing. -/
theorem Swept.close (hs : s.Swept terminal) :
    (s.close h .error failureKind true).Swept terminal := by
  obtain ⟨hfinalized, hterminal, hcons, hactive, hfiled⟩ := hs
  unfold RequestState.close
  split
  · exact ⟨hfinalized, hterminal, hcons, hactive, hfiled⟩
  · rw [completeAttempt_of_completed (hcons.completed hactive)]
    refine ⟨hfinalized, hterminal, ⟨?_, ?_, hcons.committed⟩, by simp [hactive], hfiled⟩
    · simpa [hactive] using hcons.active
    · exact (Iff.of_eq (by simp)).trans hcons.served

theorem finalizeWith_of_finalized {fuel : Nat} (h : s.finalized = true) :
    finalizeWith fuel s = s := by
  unfold finalizeWith
  simp [h]

theorem Swept.sweep {fuel : Nat} (hs : s.Swept terminal) :
    (finalizeWith fuel (s.close h .error failureKind true)).Swept terminal := by
  rw [finalizeWith_of_finalized hs.close.1]
  exact hs.close

theorem Swept.settle (hs : s.Swept terminal) : (s.settle terminal).Swept terminal := by
  obtain ⟨-, hterminal, hcons, hactive, hfiled⟩ := hs
  exact hcons.swept hactive hterminal (.inr hfiled)

/-- **The sweep** of a finished response: the first of the calls that it makes closes the
request, the others find it closed. -/
theorem Consistent.sweep (fuel : Nat) {s : RequestState} (hs : s.Consistent) (hopen : s.Unfiled)
    (hfinalized : s.finalized = false) (hterminal : s.responseTerminal = some .finished)
    (hfuel : s.active.length ≤ fuel) : (finalizeWith fuel s).Swept .finished := by
  induction fuel generalizing s with
  | zero =>
    have hactive := List.length_eq_zero_iff.mp (Nat.le_zero.mp hfuel)
    unfold finalizeWith
    simp only [hfinalized, hterminal, hactive]
    exact hs.swept hactive hterminal (.inl hopen)
  | succ fuel ih =>
    unfold finalizeWith
    cases hactive : s.active with
    | nil =>
      simp only [hfinalized, hterminal]
      exact hs.swept hactive hterminal (.inl hopen)
    | cons h rest =>
      simp only [hfinalized, hterminal, List.foldl_cons]
      obtain ⟨hcons, hunfiled, hfilter⟩ := hs.close .error (some (text "unknown")) hopen
        (hactive ▸ List.mem_cons_self) fun heq => by cases heq
      have hframe := close_frame s h .error (some (text "unknown")) true
      have hfirst := ih hcons hunfiled (hframe.1.trans hfinalized) (hframe.2.trans hterminal) (by
        rw [hactive, List.length_cons] at hfuel
        rw [hfilter, hactive, List.filter_cons_of_neg (by simp)]
        exact (List.length_filter_le _ rest).trans (Nat.le_of_succ_le_succ hfuel))
      exact Swept.settle (List.foldlRecOn (motive := (Swept · .finished)) rest _ hfirst
        fun t ht k _ => Swept.sweep ht)

/-! ## Runs -/

/-- Open as long as the response has not ended, or attempts of a cancelled one are active. -/
def Sound (s : RequestState) : Prop :=
  (s.finalized = false ∧ s.Consistent ∧ s.Unfiled ∧
      ∀ terminal ∈ s.responseTerminal, terminal = .cancelled ∧ s.active ≠ []) ∨
    (s.finalized = true ∧ s.Filed ∧ s.active = [] ∧ s.responseTerminal ≠ none ∧
      ∀ a ∈ s.request.attempts, a.completed ≠ none)

theorem Swept.sound (hs : s.Swept terminal) : s.Sound := by
  obtain ⟨hfinalized, hterminal, hcons, hactive, hfiled⟩ := hs
  exact .inr ⟨hfinalized, hfiled, hactive, by simp [hterminal], hcons.completed hactive⟩

theorem Consistent.finalizeIfReady (hs : s.Consistent) (hopen : s.Unfiled)
    (hfinalized : s.finalized = false) : s.finalizeIfReady.Sound := by
  cases hterminal : s.responseTerminal with
  | none =>
    unfold RequestState.finalizeIfReady finalizeWith
    simp only [hfinalized, hterminal]
    exact .inl ⟨hfinalized, hs, hopen, by simp [hterminal]⟩
  | some terminal =>
    cases terminal with
    | finished => exact (hs.sweep _ hopen hfinalized hterminal le_rfl).sound
    | cancelled =>
      unfold RequestState.finalizeIfReady finalizeWith
      cases hactive : s.active with
      | nil =>
        simp only [hfinalized, hterminal]
        exact (hs.swept hactive hterminal (.inl hopen)).sound
      | cons h rest =>
        simp only [hfinalized, hterminal]
        exact .inl ⟨hfinalized, hs, hopen, by simp [hterminal, hactive]⟩

theorem Sound.start (hs : s.Sound) (role : AttemptRole) (attribution : Attribution) :
    (s.start role attribution).Sound := by
  unfold RequestState.start AccountingRequest.startAttempt
  split
  · exact hs
  · rename_i hstarts
    obtain ⟨hfinalized, hcons, hopen, hterminal⟩ := hs.resolve_right fun h => hstarts (.inl h.1)
    simp only [hopen.1, Option.isSome_none, Bool.false_eq_true, if_false]
    refine .inl ⟨hfinalized, ⟨fun h => ?_, ?_, fun h hh => ?_⟩, ⟨rfl, hopen.2⟩, fun terminal h => ?_⟩
    · rw [List.mem_append, List.mem_singleton, hcons.active h]
      rcases Nat.lt_trichotomy h s.request.attempts.length with hlt | rfl | hgt
      · simp [List.getElem?_append_left hlt, hlt.ne]
      · simp
      · simp [List.getElem?_append_right hgt.le, hgt.ne', hgt.le, Nat.sub_ne_zero_of_lt hgt]
    · rw [hcons.served]
      simp [Served, AccountingRequest.isSuccessfulServe]
    · obtain ⟨a, ha, hattribution⟩ := hcons.committed h hh
      exact ⟨a, (List.getElem?_append_left (List.getElem?_eq_some_iff.mp ha).1).trans ha,
        hattribution⟩
    · obtain ⟨rfl, -⟩ := hterminal terminal h
      exact absurd (.inr h) hstarts

theorem Sound.markCommitted (hs : s.Sound) (h : Nat) (timed : Bool) :
    (s.markCommitted h timed).Sound := by
  unfold RequestState.markCommitted AccountingRequest.markAttemptCommitted
  cases hget : s.request.attempts[h]? with
  | none => exact hs
  | some a =>
    dsimp only
    split
    · exact hs
    · rename_i hcommits
      rcases hs with ⟨hfinalized, hcons, hopen, hterminal⟩ | ⟨-, -, -, -, hall⟩
      · refine .inl ⟨hfinalized, ⟨hcons.active, hcons.served, fun k hk => ?_⟩, hopen, hterminal⟩
        obtain rfl := Option.some.inj hk
        exact ⟨a, hget, rfl⟩
      · have hdone := hall a (List.mem_of_getElem? hget)
        exact absurd (.inl (Option.isSome_iff_ne_none.mpr hdone)) hcommits

/-- Until the request is closed, an attempt is completed once, with what passes the checks. -/
def Allowed (s : RequestState) : RequestEvent → Prop
  | .complete h outcome failureKind valid => s.finalized = true ∨
      (h ∈ s.active ∧ valid = true ∧ (outcome = .success → failureKind = none))
  | _ => True

theorem Sound.ended (hs : s.Sound) (terminal : ResponseTerminal) :
    { s with responseTerminal := s.responseTerminal.or (some terminal) }.finalizeIfReady.Sound := by
  rcases hs with ⟨hfinalized, hcons, hopen, -⟩ | ⟨hfinalized, hfiled, hactive, hterminal, hall⟩
  · exact Consistent.finalizeIfReady ⟨hcons.active, hcons.served, hcons.committed⟩ hopen hfinalized
  · have hor : s.responseTerminal.or (some terminal) = s.responseTerminal := by
      obtain ⟨earlier, hsome⟩ := Option.ne_none_iff_exists'.mp hterminal
      simp [hsome]
    rw [hor, RequestState.finalizeIfReady, finalizeWith_of_finalized hfinalized]
    exact .inr ⟨hfinalized, hfiled, hactive, hterminal, hall⟩

theorem Sound.step (hs : s.Sound) {e : RequestEvent} (he : s.Allowed e) : (s.step e).Sound := by
  cases e with
  | start role attribution => exact hs.start role attribution
  | markCommitted h timed => exact hs.markCommitted h timed
  | finish => exact hs.ended .finished
  | close writableFinished => exact hs.ended _
  | complete h outcome failureKind valid =>
    have hframe := close_frame s h outcome failureKind valid
    rcases hs with ⟨hfinalized, hcons, hopen, -⟩ | ⟨hfinalized, hfiled, hactive, hterminal, hall⟩
    · obtain ⟨hmem, rfl, hpair⟩ := he.resolve_left (by simp [hfinalized])
      obtain ⟨hcons', hopen', -⟩ := hcons.close _ _ hopen hmem hpair
      exact hcons'.finalizeIfReady hopen' (hframe.1.trans hfinalized)
    · -- what ends late is not recorded
      change (s.close h outcome failureKind valid).finalizeIfReady.Sound
      rw [RequestState.finalizeIfReady, finalizeWith_of_finalized (hframe.1.trans hfinalized)]
      unfold RequestState.close
      split
      · exact .inr ⟨hfinalized, hfiled, hactive, hterminal, hall⟩
      · rw [completeAttempt_of_completed hall]
        exact .inr ⟨hfinalized, hfiled, by simp [hactive], hterminal, hall⟩

/-- The states of all runs. -/
inductive Reached : RequestState → Prop
  | initial : Reached initial
  | step {s : RequestState} (e : RequestEvent) : Reached s → s.Allowed e → Reached (s.step e)

theorem Reached.sound (hs : s.Reached) : s.Sound := by
  induction hs with
  | initial =>
    refine .inl ⟨rfl, ⟨fun h => ?_, ?_, fun h hh => by cases hh⟩, ⟨rfl, rfl⟩, fun _ h => by cases h⟩
    · simp [RequestState.initial]
    · simp [RequestState.initial, Served]
  | step e _ he ih => exact ih.step he

/-- **A request is recorded once**: when its response has ended and, where it was cancelled, no
attempt is active, unless the attempt that answered is disputed. -/
theorem request_recorded_iff (hs : s.Reached) :
    s.request.recorded.length ≤ 1 ∧
      (s.finalized = true ↔ s.responseTerminal = some .finished ∨
        (s.responseTerminal = some .cancelled ∧ s.active = [])) ∧
      (s.request.recorded ≠ [] ↔ s.finalized = true ∧ ¬s.Disputed) := by
  rcases hs.sound with ⟨hfinalized, -, ⟨-, hrecorded⟩, hterminal⟩ |
    ⟨hfinalized, hfiled, hactive, hterminal, -⟩
  · refine ⟨by simp [hrecorded], ?_, by simp [hfinalized, hrecorded]⟩
    simp only [hfinalized, Bool.false_eq_true, false_iff, not_or, not_and]
    refine ⟨fun h => ?_, fun h => (hterminal _ h).2⟩
    cases (hterminal _ h).1
  · obtain ⟨terminal, hsome⟩ := Option.ne_none_iff_exists'.mp hterminal
    refine ⟨?_, ?_, ?_⟩
    · rcases hfiled with ⟨-, -, hrecorded⟩ | ⟨-, -, hlength⟩
      · simp [hrecorded]
      · exact hlength.le
    · cases terminal <;> simp [hfinalized, hsome, hactive]
    · rcases hfiled with ⟨hd, -, hrecorded⟩ | ⟨hd, -, hlength⟩
      · simp [hd, hrecorded]
      · simp [hd, hfinalized, ← List.length_eq_zero_iff, hlength]

/-- An attempt that serves succeeds, and the response finishes. -/
theorem request_recorded_iff_served :
    (((initial.step (.start .serve .unknown)).step
      (.complete 0 .success none true)).step .finish).request.recorded ≠ [] := by
  have hreached := Reached.initial.step (.start .serve .unknown) trivial
  have hserved := hreached.step (.complete 0 .success none true)
    (.inr ⟨by decide, rfl, fun _ => rfl⟩)
  refine (request_recorded_iff (hserved.step .finish trivial)).2.2.mpr ⟨rfl, fun h => ?_⟩
  exact h.1 ⟨_, List.mem_cons_self, rfl⟩

end RequestState

end LlmRelay.Accounting
