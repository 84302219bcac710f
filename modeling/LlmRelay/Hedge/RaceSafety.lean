import LlmRelay.Hedge.Race
import Mathlib.Data.List.Induction

/-!
# Safety of the hedge race

Whatever the order of the timer, the settlements and the jobs: the hedge is started at
most once, after the delay and while the primary is unsettled; what is reported is a win
where there is one to report; and a loser that is still running is aborted.

## Main definitions

* `Race.Sound`: where the value of a promise comes from;
* `Race.Wired`: the promises of a race are connected as the function connects them;
* `Race.Control`: what is known where the function waits, and when it has returned.

## Main results

* `Race.Safe.step`: one event preserves the invariant;
* `hedge_race_safe`: what holds after any events.
-/

namespace LlmRelay

open Ecma

namespace Race

variable {α ε : Type*}

/-! ## The promises -/

/-- Which reactions are for which promise. -/
def place : PromiseName → Reaction → Prop
  | _, .resume => True
  | .entrant side, .settle side' => side = side'
  | .delay, .raceDelay => True
  | .settled side, .raceDelay => side = .primary
  | .settled side, .tag side' => side = side'
  | .tagged _, .raceTagged => True
  | _, _ => False

/-- Where the value of a promise comes from. -/
def Sound (j : Jobs PromiseName (Value α ε) Reaction) : PromiseName → Value α ε → Prop
  | .entrant _, v => ∃ settled, v = .settled settled
  | .delay, v => v = .delay
  | .settled side, v => j.value (.entrant side) = some v
  | .firstOrDelay, v => j.value .delay = some v ∨ j.value (.settled .primary) = some v
  | .tagged side, v =>
    ∃ settled, v = .tagged side settled ∧ j.value (.settled side) = some (.settled settled)
  | .first, v => ∃ side, j.value (.tagged side) = some v

variable {v : Value α ε} {name : PromiseName}

theorem Sound.mono {j j' : Jobs PromiseName (Value α ε) Reaction}
    (hgrow : ∀ name v, j.value name = some v → j'.value name = some v)
    (h : Sound j name v) : Sound j' name v := by
  cases name with
  | entrant side => exact h
  | delay => exact h
  | settled side => exact hgrow _ _ h
  | firstOrDelay => exact h.imp (hgrow _ _) (hgrow _ _)
  | tagged side =>
    obtain ⟨settled, hv, hsettled⟩ := h
    exact ⟨settled, hv, hgrow _ _ hsettled⟩
  | first =>
    obtain ⟨side, hside⟩ := h
    exact ⟨side, hgrow _ _ hside⟩

/-- The connections the function makes; those of the hedge once it is started. -/
inductive Link : Bool → PromiseName → Reaction → PromiseName → Prop where
  | primary (started : Bool) :
    Link started (.entrant .primary) (.settle .primary) (.settled .primary)
  | raced (started : Bool) : Link started (.settled .primary) .raceDelay .firstOrDelay
  | delayed (started : Bool) : Link started .delay .raceDelay .firstOrDelay
  | hedge : Link true (.entrant .hedge) (.settle .hedge) (.settled .hedge)
  | tagged (side : Side) : Link true (.settled side) (.tag side) (.tagged side)
  | first (side : Side) : Link true (.tagged side) .raceTagged .first

/-- The promise a reaction settles. -/
def target : Reaction → Option PromiseName
  | .settle side => some (.settled side)
  | .raceDelay => some .firstOrDelay
  | .tag side => some (.tagged side)
  | .raceTagged => some .first
  | .resume => none

theorem Link.target_eq {started : Bool} {p q : PromiseName} {r : Reaction}
    (h : Link started p r q) : target r = some q := by
  cases h <;> rfl

/-- The promises of a race are connected as the function connects them. -/
structure Wired (j : Jobs PromiseName (Value α ε) Reaction) (started : Bool) : Prop where
  placed : j.Placed place
  sound : ∀ name v, j.value name = some v → Sound j name v
  linked : ∀ p r q, Link started p r q → j.Linked p r q
  absent : started = false → j.value (.entrant .hedge) = none

namespace Wired

variable {j : Jobs PromiseName (Value α ε) Reaction} {started : Bool}

variable {name : PromiseName}

theorem sound_settle (h : Wired j started) (hsound : Sound j name v) :
    ∀ k w, (j.settle name v).value k = some w → Sound (j.settle name v) k w := by
  intro k w hw
  refine Sound.mono (fun _ _ hold => Jobs.value_settle_of_some hold name v) ?_
  rw [Jobs.value_settle] at hw
  split at hw
  · rename_i hk
    subst hk
    cases hold : j.value k with
    | some u =>
      rw [hold, Option.some.injEq] at hw
      exact hw ▸ h.sound k u hold
    | none =>
      rw [hold, Option.some.injEq] at hw
      exact hw ▸ hsound
  · exact h.sound k w hw

theorem settle (h : Wired j started) (hsound : Sound j name v)
    (hhedge : started = false → name ≠ .entrant .hedge) :
    Wired (j.settle name v) started where
  placed := h.placed.settle name v
  sound := h.sound_settle hsound
  linked := fun p r q hlink => (h.linked p r q hlink).settle name v
  absent := fun hs => by
    rw [Jobs.value_settle, if_neg (hhedge hs).symm]
    exact h.absent hs

theorem react (h : Wired j started) {r : Reaction} (hplace : place name r) :
    Wired (j.react name r) started where
  placed := h.placed.react hplace
  sound := fun k w hw => by
    refine Sound.mono (fun _ _ hold => by rwa [Jobs.value_react]) (h.sound k w ?_)
    rwa [Jobs.value_react] at hw
  linked := fun p r' q hlink => (h.linked p r' q hlink).react name r
  absent := fun hs => by
    rw [Jobs.value_react]
    exact h.absent hs

variable {queue : List (Reaction × Value α ε)}

theorem pop_resume (h : Wired j started)
    (hqueue : j.queue = (.resume, v) :: queue) : Wired j.pop started where
  placed := h.placed.pop
  sound := h.sound
  linked := fun p r q hlink => by
    refine (h.linked p r q hlink).pop hqueue (.inl ?_)
    rintro rfl
    cases hlink.target_eq
  absent := h.absent

theorem pop_settle (h : Wired j started) {job : Reaction × Value α ε}
    (hqueue : j.queue = job :: queue) (htarget : target job.1 = some name) (hsound : Sound j name v)
    (hentrant : ∀ side, name ≠ .entrant side) : Wired (j.pop.settle name v) started := by
  have hpop : ∀ k w, (j.pop.settle name v).value k = some w → Sound (j.pop.settle name v) k w := by
    intro k w hw
    have hsame : ∀ k, (j.pop.settle name v).value k = (j.settle name v).value k := by
      intro k
      rw [Jobs.value_settle, Jobs.value_settle]
      rfl
    rw [hsame] at hw
    refine Sound.mono (fun _ _ hold => ?_) (h.sound_settle hsound k w hw)
    rwa [hsame]
  refine ⟨h.placed.pop.settle name v, hpop, fun p r q hlink => ?_, fun hs => ?_⟩
  · refine (h.linked p r q hlink).pop_settle hqueue v ?_
    by_cases hr : job.1 = r
    · right
      have hq := hlink.target_eq
      rw [← hr, htarget] at hq
      exact Option.some.inj hq
    · exact .inl hr
  · rw [Jobs.value_settle, if_neg (hentrant .hedge).symm]
    exact h.absent hs

end Wired

/-! ## The function -/

/-- The promise the function waits for. -/
def awaited : Waiting α ε → Option PromiseName
  | .firstOrDelay => some .firstOrDelay
  | .primaryOnly => some (.settled .primary)
  | .race => some .first
  | .other side _ => some (.settled side.other)
  | .primaryFinal => some (.settled .primary)
  | .done _ => none

/-- The actions that start a hedge. -/
def starts (log : List Action) : List Action :=
  log.filter fun
    | .startHedge _ _ => true
    | _ => false

/-- An entrant's promise is settled so. -/
def SettledAs (s : State α ε) (side : Side) (settled : Settled α ε) : Prop :=
  s.jobs.value (.entrant side) = some (.settled settled)

/-- What is known where the function waits, and when it has returned. -/
def Control (isWin : Settled α ε → Bool) (s : State α ε) : Prop :=
  match s.waiting with
  | .firstOrDelay =>
    s.hedgeStarted = false ∧ s.log = [] ∧
      (s.delayOver = true → s.jobs.value (.entrant .primary) = none)
  | .primaryOnly => s.hedgeStarted = false ∧ s.log = []
  | .race => s.hedgeStarted = true ∧ s.log = [.startHedge true false]
  | .other side settled =>
    s.hedgeStarted = true ∧ s.log = [.startHedge true false] ∧
      SettledAs s side settled ∧ isWin settled = false
  | .primaryFinal =>
    s.hedgeStarted = true ∧ s.log = [.startHedge true false] ∧
      ∀ side, ∃ settled, SettledAs s side settled ∧ isWin settled = false
  | .done result =>
    result.hedgeStarted = s.hedgeStarted ∧ SettledAs s result.winner result.settled ∧
      (isWin result.settled = false → result.winner = .primary ∧
        (s.hedgeStarted = true → ∃ settled, SettledAs s .hedge settled ∧ isWin settled = false)) ∧
      (s.hedgeStarted = true → result.loser = some result.winner.other ∧
        (.abort result.winner.other ∈ s.log ∨ ∃ settled, SettledAs s result.winner.other settled)) ∧
      (s.hedgeStarted = false → result.winner = .primary) ∧
      starts s.log = if s.hedgeStarted then [.startHedge true false] else []

/-- The invariant of a race. -/
structure Safe (isWin : Settled α ε → Bool) (s : State α ε) : Prop where
  wired : Wired s.jobs s.hedgeStarted
  awaits : s.jobs.Awaits .resume (awaited s.waiting)
  control : Control isWin s
  armed : s.timerArmed = true → s.delayOver = false ∧ awaited s.waiting = some .firstOrDelay
  elapsed : s.jobs.value .delay ≠ none → s.delayOver = true

theorem Side.other_other (side : Side) : side.other.other = side := by
  cases side <;> rfl

theorem Control.mono {isWin : Settled α ε → Bool} {s s' : State α ε} (h : Control isWin s)
    (hwaiting : s'.waiting = s.waiting) (hstarted : s'.hedgeStarted = s.hedgeStarted)
    (hlog : s'.log = s.log) (hover : s'.delayOver = s.delayOver)
    (hgrow : ∀ side settled, SettledAs s side settled → SettledAs s' side settled)
    (hwaking : s.waking = true → s.jobs.value (.entrant .primary) = none →
      s'.jobs.value (.entrant .primary) = none) : Control isWin s' := by
  unfold Control at h ⊢
  rw [hwaiting]
  cases hw : s.waiting with
  | firstOrDelay =>
    rw [hw] at h
    obtain ⟨h₁, h₂, h₃⟩ := h
    refine ⟨hstarted.trans h₁, hlog.trans h₂, fun hdelay => ?_⟩
    rw [hover] at hdelay
    exact hwaking (by simp [State.waking, hdelay, hw]) (h₃ hdelay)
  | primaryOnly =>
    rw [hw] at h
    exact ⟨hstarted.trans h.1, hlog.trans h.2⟩
  | race =>
    rw [hw] at h
    exact ⟨hstarted.trans h.1, hlog.trans h.2⟩
  | other side settled =>
    rw [hw] at h
    obtain ⟨h₁, h₂, h₃, h₄⟩ := h
    exact ⟨hstarted.trans h₁, hlog.trans h₂, hgrow _ _ h₃, h₄⟩
  | primaryFinal =>
    rw [hw] at h
    obtain ⟨h₁, h₂, h₃⟩ := h
    refine ⟨hstarted.trans h₁, hlog.trans h₂, fun side => ?_⟩
    obtain ⟨settled, hside, hlost⟩ := h₃ side
    exact ⟨settled, hgrow _ _ hside, hlost⟩
  | done result =>
    rw [hw] at h
    obtain ⟨h₁, h₂, h₃, h₄, h₅, h₆⟩ := h
    rw [← hstarted] at h₁ h₃ h₄ h₅ h₆
    rw [← hlog] at h₄ h₆
    refine ⟨h₁, hgrow _ _ h₂, fun hlost => ⟨(h₃ hlost).1, fun hs => ?_⟩, fun hs => ?_, h₅, h₆⟩
    · obtain ⟨settled, hside, hlosing⟩ := (h₃ hlost).2 hs
      exact ⟨settled, hgrow _ _ hside, hlosing⟩
    · refine ⟨(h₄ hs).1, (h₄ hs).2.imp id ?_⟩
      rintro ⟨settled, hside⟩
      exact ⟨settled, hgrow _ _ hside⟩

/-! ## Resuming -/

section Resume

variable {isWin : Settled α ε → Bool} {s : State α ε} {v : Value α ε}

theorem Wired.settledAs (h : Wired s.jobs s.hedgeStarted) {side : Side}
    (hvalue : s.jobs.value (.settled side) = some v) :
    ∃ settled, v = .settled settled ∧ SettledAs s side settled := by
  have hentrant : s.jobs.value (.entrant side) = some v := h.sound _ _ hvalue
  obtain ⟨settled, rfl⟩ := h.sound _ _ hentrant
  exact ⟨settled, rfl, hentrant⟩

theorem Wired.tagged_settledAs (h : Wired s.jobs s.hedgeStarted)
    (hvalue : s.jobs.value .first = some v) :
    ∃ side settled, v = .tagged side settled ∧ SettledAs s side settled := by
  obtain ⟨side, hside⟩ := h.sound _ _ hvalue
  obtain ⟨settled, rfl, hsettled⟩ := h.sound _ _ hside
  exact ⟨side, settled, rfl, h.sound _ _ hsettled⟩

theorem Wired.enter (h : Wired s.jobs false) (already : Option (Settled α ε)) :
    (s.enter already).jobs.Placed place ∧
      (∀ k w, (s.enter already).jobs.value k = some w → Sound (s.enter already).jobs k w) ∧
      ∀ p r q, Link false p r q → (s.enter already).jobs.Linked p r q := by
  cases already with
  | none => exact ⟨h.placed, h.sound, h.linked⟩
  | some settled =>
    exact ⟨h.placed.settle _ _, h.sound_settle ⟨settled, rfl⟩, fun p r q hlink =>
      (h.linked p r q hlink).settle _ _⟩

theorem Wired.raceHedge (hplaced : s.jobs.Placed place)
    (hsound : ∀ k w, s.jobs.value k = some w → Sound s.jobs k w)
    (hlinked : ∀ p r q, Link false p r q → s.jobs.Linked p r q) : Wired s.raceHedge.jobs true := by
  unfold State.raceHedge State.react
  refine ⟨?_, ?_, ?_, fun hs => by cases hs⟩
  · refine Jobs.Placed.react (Jobs.Placed.react (Jobs.Placed.react (Jobs.Placed.react
      (Jobs.Placed.react (Jobs.Placed.react hplaced ?_) ?_) ?_) ?_) ?_) ?_
    · exact (rfl : Side.hedge = .hedge)
    · exact (rfl : Side.primary = .primary)
    · exact (rfl : Side.hedge = .hedge)
    · exact trivial
    · exact trivial
    · exact trivial
  · intro k w hw
    simp only [Jobs.value_react] at hw
    exact Sound.mono (fun _ _ hold => by simpa only [Jobs.value_react] using hold) (hsound k w hw)
  · intro p r q hlink
    cases hlink with
    | primary =>
      exact ((((((hlinked _ _ _ (.primary _)).react _ _).react _ _).react _ _).react _ _).react
        _ _).react _ _
    | raced =>
      exact ((((((hlinked _ _ _ (.raced _)).react _ _).react _ _).react _ _).react _ _).react
        _ _).react _ _
    | delayed =>
      exact ((((((hlinked _ _ _ (.delayed _)).react _ _).react _ _).react _ _).react _ _).react
        _ _).react _ _
    | hedge => exact (((((Jobs.Linked.of_react _).react _ _).react _ _).react _ _).react _ _).react _ _
    | tagged side =>
      cases side with
      | primary => exact ((((Jobs.Linked.of_react _).react _ _).react _ _).react _ _).react _ _
      | hedge => exact (((Jobs.Linked.of_react _).react _ _).react _ _).react _ _
    | first side =>
      cases side with
      | primary => exact ((Jobs.Linked.of_react _).react _ _).react _ _
      | hedge => exact (Jobs.Linked.of_react _).react _ _

variable (hwired : Wired s.jobs s.hedgeStarted)

include hwired

variable (hawaits : s.jobs.Awaits .resume none)

include hawaits

variable (harmed : s.timerArmed = false)

include harmed

theorem Safe.return_ (hover : s.jobs.value .delay ≠ none → s.delayOver = true) {winner : Side}
    {settled : Settled α ε} {started : Bool} {loser : Option Side}
    (hcontrol : Control isWin (s.return_ winner settled started loser)) :
    Safe isWin (s.return_ winner settled started loser) where
  wired := hwired
  awaits := hawaits
  control := hcontrol
  armed := fun harm => absurd harm (by rw [show (s.return_ _ _ _ _).timerArmed = _ from harmed]; decide)
  elapsed := hover

theorem Safe.await (hover : s.jobs.value .delay ≠ none → s.delayOver = true)
    (hname : awaited s.waiting = some name) (hcontrol : Control isWin (s.react name .resume)) :
    Safe isWin (s.react name .resume) where
  wired := hwired.react (by cases name <;> exact trivial)
  awaits := by
    rw [show awaited (s.react name .resume).waiting = some name from hname]
    exact hawaits.await name
  control := hcontrol
  armed := fun harm => absurd harm (by rw [show (s.react _ _).timerArmed = _ from harmed]; decide)
  elapsed := fun hdelay => hover (by simpa [State.react] using hdelay)

theorem Safe.startHedge
    (hstarted : s.hedgeStarted = false) (hlog : s.log = []) (hdelay : s.delayOver = true)
    (hpending : s.jobs.value (.entrant .primary) = none) : Safe isWin (startHedge s) := by
  unfold Race.startHedge
  cases hcandidate : s.candidate with
  | none =>
    refine Safe.await (s := { s with waiting := .primaryOnly, candidate := none }) hwired hawaits harmed
      (fun _ => hdelay) rfl ?_
    exact ⟨hstarted, hlog⟩
  | some already =>
    rw [hstarted] at hwired
    generalize hrunning : ({ s with
      hedgeStarted := true
      waiting := .race
      candidate := some already
      log := s.log ++ [Action.startHedge s.delayOver (s.jobs.value (.entrant .primary)).isSome] }
        : State α ε) = running
    have hjobs : running.jobs = s.jobs := by rw [← hrunning]
    have hentered := Wired.enter (s := running) (hjobs ▸ hwired) already
    have hawaitsEntered : (running.enter already).jobs.Awaits .resume none := by
      cases already with
      | none => exact hjobs ▸ hawaits
      | some settled => exact (hjobs ▸ hawaits).settle _ _
    have hfields : ∀ a : Option (Settled α ε), (running.enter a).raceHedge.waiting = .race ∧
        (running.enter a).raceHedge.hedgeStarted = true ∧
        (running.enter a).raceHedge.log = [.startHedge true false] ∧
        (running.enter a).raceHedge.timerArmed = false ∧
        (running.enter a).raceHedge.delayOver = true := by
      intro a
      subst hrunning
      cases a <;> simp [State.enter, State.raceHedge, State.react, State.settle, hlog, hdelay, hpending, harmed]
    obtain ⟨hwaiting, hnow, hlogged, hdisarmed, hover⟩ := hfields already
    refine ⟨?_, ?_, ?_, fun harm => ?_, fun _ => hover⟩
    · rw [hnow]
      exact Wired.raceHedge hentered.1 hentered.2.1 hentered.2.2
    · rw [hwaiting]
      exact Jobs.Awaits.await (((((hawaitsEntered.react_of_ne _ (by decide)).react_of_ne _
        (by decide)).react_of_ne _ (by decide)).react_of_ne _ (by decide)).react_of_ne _
        (by decide)) .first
    · unfold Control
      rw [hwaiting]
      exact ⟨hnow, hlogged⟩
    · rw [hdisarmed] at harm
      cases harm

omit harmed

/-- **Resuming the function** keeps the invariant. -/
theorem Safe.resume (hcontrol : Control isWin s)
    (harmed : s.timerArmed = true → s.delayOver = false ∧ awaited s.waiting = some .firstOrDelay)
    (hover : s.jobs.value .delay ≠ none → s.delayOver = true)
    (hname : awaited s.waiting = some name) (hvalue : s.jobs.value name = some v) :
    Safe isWin (resume isWin s v) := by
  have hdisarmed : awaited s.waiting ≠ some .firstOrDelay → s.timerArmed = false := by
    intro hne
    rw [← Bool.not_eq_true]
    exact fun harm => hne (harmed harm).2
  unfold Control at hcontrol
  unfold Race.resume
  cases hw : s.waiting with
  | firstOrDelay =>
    rw [hw] at hcontrol hname
    obtain ⟨hstarted, hlog, hprimary⟩ := hcontrol
    cases hname
    rcases hwired.sound _ _ hvalue with hdelay | hsettled
    · -- the delay settled the race: the timer has fired, and the primary is unsettled
      have hdelayOver := hover (by rw [hdelay]; exact Option.some_ne_none v)
      have harm : s.timerArmed = false := by
        rw [← Bool.not_eq_true]
        exact fun harm => absurd (harmed harm).1 (by rw [hdelayOver]; decide)
      rw [show v = .delay from hwired.sound _ _ hdelay]
      exact Safe.startHedge hwired hawaits harm hstarted hlog hdelayOver (hprimary hdelayOver)
    · -- the primary settled the race: it is reported, and no hedge is started
      obtain ⟨settled, rfl, hside⟩ := hwired.settledAs hsettled
      refine Safe.return_ (s := { s with timerArmed := false, log := s.log ++ [.clearTimer] })
        hwired hawaits rfl hover ?_
      refine ⟨hstarted.symm, hside, fun _ => ⟨rfl, fun hs => ?_⟩, fun hs => ?_, fun _ => rfl, ?_⟩
      · exact absurd (hstarted.symm.trans hs) (by decide)
      · exact absurd (hstarted.symm.trans hs) (by decide)
      · simp [State.return_, starts, hlog, hstarted]
  | primaryOnly =>
    rw [hw] at hcontrol hname
    obtain ⟨hstarted, hlog⟩ := hcontrol
    cases hname
    obtain ⟨settled, rfl, hside⟩ := hwired.settledAs hvalue
    refine Safe.return_ hwired hawaits (hdisarmed (by simp [hw, awaited])) hover ?_
    refine ⟨hstarted.symm, hside, fun _ => ⟨rfl, fun hs => ?_⟩, fun hs => ?_, fun _ => rfl, ?_⟩
    · exact absurd (hstarted.symm.trans hs) (by decide)
    · exact absurd (hstarted.symm.trans hs) (by decide)
    · simp [State.return_, starts, hlog, hstarted]
  | race =>
    rw [hw] at hcontrol hname
    obtain ⟨hstarted, hlog⟩ := hcontrol
    cases hname
    obtain ⟨side, settled, rfl, hside⟩ := hwired.tagged_settledAs hvalue
    have harm := hdisarmed (by simp [hw, awaited])
    dsimp only
    split
    · -- the first to settle wins: the other is aborted
      rename_i hwin
      refine Safe.return_ (s := { s with log := s.log ++ [.abort side.other] })
        hwired hawaits harm hover ?_
      refine ⟨hstarted.symm, hside, fun hlost => ?_, fun _ => ⟨rfl, .inl ?_⟩, fun hs => ?_, ?_⟩
      · exact absurd (hlost.symm.trans hwin) (by decide)
      · exact List.mem_append_right _ (List.mem_singleton_self _)
      · exact absurd (hstarted.symm.trans hs) (by decide)
      · simp [State.return_, starts, hlog, hstarted]
    · rename_i hlost
      exact Safe.await (s := { s with waiting := .other side settled }) hwired hawaits harm hover
        rfl ⟨hstarted, hlog, by simpa [SettledAs, State.react] using hside,
          Bool.eq_false_iff.mpr hlost⟩
  | other side first =>
    rw [hw] at hcontrol hname
    obtain ⟨hstarted, hlog, hfirst, hlosing⟩ := hcontrol
    cases hname
    obtain ⟨settled, rfl, hside⟩ := hwired.settledAs hvalue
    have harm := hdisarmed (by simp [hw, awaited])
    dsimp only
    split
    · -- the other wins: the first is settled, so nothing is left to abort
      rename_i hwin
      refine Safe.return_ hwired hawaits harm hover ?_
      refine ⟨hstarted.symm, hside, fun hlost => ?_, fun _ => ⟨?_, .inr ⟨first, ?_⟩⟩, fun hs => ?_, ?_⟩
      · exact absurd (hlost.symm.trans hwin) (by decide)
      · rw [Side.other_other]
      · rw [Side.other_other]
        exact hfirst
      · exact absurd (hstarted.symm.trans hs) (by decide)
      · simp [State.return_, starts, hlog, hstarted]
    · rename_i hlost
      refine Safe.await (s := { s with waiting := .primaryFinal }) hwired hawaits harm hover rfl
        ⟨hstarted, hlog, fun side' => ?_⟩
      have hboth : ∃ settled', SettledAs s side' settled' ∧ isWin settled' = false := by
        by_cases hs : side' = side
        · exact ⟨first, hs ▸ hfirst, hlosing⟩
        · have hother : side' = side.other := by
            cases side <;> cases side' <;> first | rfl | exact absurd rfl hs
          exact ⟨settled, hother ▸ hside, Bool.eq_false_iff.mpr hlost⟩
      simpa [SettledAs, State.react] using hboth
  | primaryFinal =>
    rw [hw] at hcontrol hname
    obtain ⟨hstarted, hlog, hboth⟩ := hcontrol
    cases hname
    obtain ⟨settled, rfl, hside⟩ := hwired.settledAs hvalue
    have harm := hdisarmed (by simp [hw, awaited])
    obtain ⟨other, hother, hlosing⟩ := hboth .hedge
    refine Safe.return_ hwired hawaits harm hover ?_
    refine ⟨hstarted.symm, hside, fun _ => ⟨rfl, fun _ => ⟨other, hother, hlosing⟩⟩,
      fun _ => ⟨rfl, .inr ⟨other, hother⟩⟩, fun _ => rfl, ?_⟩
    simp [State.return_, starts, hlog, hstarted]
  | done result =>
    rw [hw] at hname
    cases hname

end Resume

/-! ## Events -/

section Events

variable (isWin : Settled α ε → Bool)

theorem jobs_start : (start : State α ε).jobs
    = (((Jobs.idle.react (.entrant .primary) (.settle .primary)).react (.settled .primary)
        .raceDelay).react .delay .raceDelay).react .firstOrDelay .resume := rfl

/-- The invariant holds when the function first waits. -/
theorem Safe.start : Safe isWin (start : State α ε) where
  wired := by
    rw [jobs_start]
    refine ⟨?_, fun k w hw => ?_, fun p r q hlink => ?_, fun _ => by simp⟩
    · refine Jobs.Placed.react (Jobs.Placed.react (Jobs.Placed.react (Jobs.Placed.react
        .idle ?_) ?_) ?_) ?_
      · exact (rfl : Side.primary = .primary)
      · exact (rfl : Side.primary = .primary)
      · exact trivial
      · exact trivial
    · simp at hw
    · cases hlink with
      | primary => exact (((Jobs.Linked.of_react _).react _ _).react _ _).react _ _
      | raced => exact ((Jobs.Linked.of_react _).react _ _).react _ _
      | delayed => exact (Jobs.Linked.of_react _).react _ _
  awaits := by
    rw [jobs_start]
    refine Jobs.Awaits.await (Jobs.Awaits.react_of_ne (Jobs.Awaits.react_of_ne
      (Jobs.Awaits.react_of_ne (.idle _) _ ?_) _ ?_) _ ?_) _
    · decide
    · decide
    · decide
  control := ⟨rfl, rfl, fun hdelay => by cases hdelay⟩
  armed := fun _ => ⟨rfl, rfl⟩
  elapsed := fun hdelay => absurd (by simp [jobs_start]) hdelay

variable {isWin} {s : State α ε}

variable (h : Safe isWin s)

include h

/-- Where nothing is queued and the function waits for the first of the primary and the
delay, the primary is unsettled. -/
theorem Safe.primary_pending (hqueue : s.jobs.queue = [])
    (hwaiting : awaited s.waiting = some .firstOrDelay) :
    s.jobs.value (.entrant .primary) = none := by
  have hfirst := h.awaits.pending hqueue hwaiting
  have hsettled := (h.wired.linked _ _ _ (.raced _)).pending hqueue hfirst
  exact (h.wired.linked _ _ _ (.primary _)).pending hqueue hsettled

/-- The timer fires. -/
theorem Safe.timer (candidate : Option (Option (Settled α ε))) :
    Safe isWin (step isWin s (.timer candidate)) := by
  unfold step
  dsimp only
  split
  · rename_i hfires
    simp only [Bool.and_eq_true, List.isEmpty_iff] at hfires
    obtain ⟨harmed, hqueue⟩ := hfires
    obtain ⟨-, hwaiting⟩ := h.armed harmed
    have hpending := h.primary_pending hqueue hwaiting
    have hfirst : s.waiting = .firstOrDelay := by
      cases hw : s.waiting <;> rw [hw] at hwaiting <;> first | rfl | cases hwaiting
    have hcontrol := h.control
    unfold Control at hcontrol
    rw [hfirst] at hcontrol
    refine ⟨h.wired.settle rfl fun _ => by simp, h.awaits.settle _ _, ?_, fun harm => (by cases harm),
      fun _ => rfl⟩
    unfold Control State.settle
    simp only [hfirst]
    refine ⟨hcontrol.1, hcontrol.2.1, fun _ => ?_⟩
    rw [Jobs.value_settle]
    exact hpending
  · exact h

theorem Safe.settleEntrant (side : Side) (settled : Settled α ε) :
    Safe isWin (step isWin s (.settle side settled)) := by
  unfold step
  dsimp only
  split
  · exact h
  · rename_i hguard
    simp only [Bool.or_eq_true, Bool.and_eq_true, Bool.not_eq_true', not_or,
      not_and, Bool.not_eq_true] at hguard
    refine ⟨h.wired.settle ⟨settled, rfl⟩ fun hs heq => ?_, h.awaits.settle _ _, ?_, h.armed, ?_⟩
    · cases heq
      exact absurd hs (hguard.2 rfl)
    · refine h.control.mono rfl rfl rfl rfl (fun _ _ hold => ?_) fun hwaking _ => ?_
      · exact Jobs.value_settle_of_some hold _ _
      · exact absurd hwaking (by rw [hguard.1]; decide)
    · intro hdelay
      refine h.elapsed fun hnone => hdelay ?_
      rw [State.settle, Jobs.value_settle]
      exact hnone

theorem Safe.pop_settle {job : Reaction × Value α ε}
    {queue : List (Reaction × Value α ε)} (hqueue : s.jobs.queue = job :: queue)
    (htarget : target job.1 = some name) (hsound : Sound s.jobs name v) :
    Safe isWin ({ s with jobs := s.jobs.pop }.settle name v) := by
  have hplain : name ≠ .delay ∧ ∀ side, name ≠ .entrant side := by
    rcases job with ⟨_ | _ | _ | _ | _, w⟩ <;> cases htarget <;> simp
  have hresume : job.1 ≠ .resume := by
    intro hr
    rw [hr] at htarget
    cases htarget
  refine ⟨h.wired.pop_settle hqueue htarget hsound hplain.2,
    (h.awaits.pop_of_ne hqueue hresume).settle _ _, ?_, h.armed, fun hdelay => ?_⟩
  · refine h.control.mono rfl rfl rfl rfl (fun _ _ hold => ?_) fun _ hnone => ?_
    · exact Jobs.value_settle_of_some (j := s.jobs.pop) hold _ _
    · rw [State.settle, Jobs.value_settle, if_neg (hplain.2 .primary).symm]
      exact hnone
  · refine h.elapsed fun hnone => hdelay ?_
    rw [State.settle, Jobs.value_settle, if_neg hplain.1.symm]
    exact hnone

/-- A job is run. -/
theorem Safe.job : Safe isWin (step isWin s .job) := by
  unfold step
  cases hqueue : s.jobs.queue with
  | nil => exact h
  | cons job queue =>
    obtain ⟨name, hplace, hvalue⟩ := h.wired.placed.queue job (by rw [hqueue]; exact List.mem_cons_self)
    obtain ⟨reaction, v⟩ := job
    cases reaction with
    | settle side =>
      have hname : name = .entrant side := by cases name <;> simp_all [place]
      subst hname
      exact h.pop_settle hqueue rfl hvalue
    | raceDelay =>
      refine h.pop_settle hqueue rfl ?_
      cases name <;> simp_all [place, Sound]
    | tag side =>
      have hname : name = .settled side := by cases name <;> simp_all [place]
      subst hname
      obtain ⟨settled, rfl, -⟩ := h.wired.settledAs hvalue
      exact h.pop_settle hqueue rfl ⟨settled, rfl, hvalue⟩
    | raceTagged =>
      refine h.pop_settle hqueue rfl ?_
      cases name <;> simp_all [place]
      exact ⟨_, hvalue⟩
    | resume =>
      obtain ⟨awaitedName, hawaited, hready, hpop⟩ := h.awaits.resume hqueue
      exact Safe.resume (s := { s with jobs := s.jobs.pop }) (h.wired.pop_resume hqueue) hpop
        (h.control.mono rfl rfl rfl rfl (fun _ _ hold => hold) fun _ hnone => hnone) h.armed
        h.elapsed hawaited hready

/-- **One event preserves the invariant.** -/
theorem Safe.step (event : Event α ε) : Safe isWin (step isWin s event) := by
  cases event with
  | timer candidate => exact h.timer candidate
  | settle side settled => exact h.settleEntrant side settled
  | job => exact h.job

omit h

/-- The invariant holds after any events. -/
theorem Safe.run (isWin : Settled α ε → Bool) (events : List (Event α ε)) :
    Safe isWin (run isWin events) := by
  induction events using List.reverseRecOn with
  | nil => exact .start isWin
  | append_singleton events event ih =>
    rw [Race.run, List.foldl_append]
    exact ih.step event

/-! ## After any events -/

theorem Safe.starts_log (h : Safe isWin s) :
    starts s.log = if s.hedgeStarted then [.startHedge true false] else [] := by
  have hcontrol := h.control
  unfold Control at hcontrol
  cases hw : s.waiting <;> rw [hw] at hcontrol
  case done => exact hcontrol.2.2.2.2.2
  all_goals simp [hcontrol.1, hcontrol.2, starts]

/-- Has the race returned? -/
def Returned (s : State α ε) : Prop :=
  ∃ result, s.waiting = .done result

/-- Can the race return: the primary is settled and there is no hedge, or a settlement
wins, or both sides are settled? -/
def Decided (isWin : Settled α ε → Bool) (s : State α ε) : Prop :=
  (s.hedgeStarted = false ∧ ∃ settled, SettledAs s .primary settled) ∨
    (∃ side settled, SettledAs s side settled ∧ isWin settled = true) ∨
    ∀ side, ∃ settled, SettledAs s side settled

/-- **A decided race has returned**, once no job is queued. -/
theorem Safe.returned (h : Safe isWin s) (hqueue : s.jobs.queue = []) (hdecided : Decided isWin s) :
    Returned s := by
  have hunsettled : ∀ side, s.jobs.value (.entrant side) = none →
      ∀ settled, ¬SettledAs s side settled := by
    intro side hnone settled hside
    rw [SettledAs, hnone] at hside
    cases hside
  have hsource : ∀ side, Link s.hedgeStarted (.entrant side) (.settle side) (.settled side) →
      s.jobs.value (.settled side) = none → s.jobs.value (.entrant side) = none :=
    fun side hlink hnone => (h.wired.linked _ _ _ hlink).pending hqueue hnone
  have habsent : s.hedgeStarted = false → ∀ settled, ¬SettledAs s .hedge settled :=
    fun hs => hunsettled .hedge (h.wired.absent hs)
  have hcontrol := h.control
  unfold Control at hcontrol
  -- wherever the function waits, what it waits for comes from an unsettled entrant
  have halone : s.hedgeStarted = false → s.jobs.value (.entrant .primary) = none →
      ¬Decided isWin s := by
    rintro hs hprimary (⟨-, settled, hside⟩ | ⟨side, settled, hside, -⟩ | hboth)
    · exact hunsettled .primary hprimary settled hside
    · cases side with
      | primary => exact hunsettled .primary hprimary settled hside
      | hedge => exact habsent hs settled hside
    · obtain ⟨settled, hside⟩ := hboth .primary
      exact hunsettled .primary hprimary settled hside
  have hraced : ∀ side, s.hedgeStarted = true → s.jobs.value (.entrant side) = none →
      (∀ settled, SettledAs s side.other settled → isWin settled = false) →
      ¬Decided isWin s := by
    rintro side hs hnone hother (⟨hs', -⟩ | ⟨side', settled, hside, hwin⟩ | hboth)
    · exact absurd (hs'.symm.trans hs) (by decide)
    · by_cases heq : side' = side
      · exact hunsettled side hnone settled (heq ▸ hside)
      · have hside' : side' = side.other := by
          cases side <;> cases side' <;> first | rfl | exact absurd rfl heq
        exact absurd ((hother settled (hside' ▸ hside)).symm.trans hwin) (by decide)
    · obtain ⟨settled, hside⟩ := hboth side
      exact hunsettled side hnone settled hside
  cases hw : s.waiting with
  | firstOrDelay =>
    rw [hw] at hcontrol
    exact absurd hdecided (halone hcontrol.1 (h.primary_pending hqueue (by rw [hw]; rfl)))
  | primaryOnly =>
    rw [hw] at hcontrol
    have hpending := h.awaits.pending hqueue (by rw [hw]; rfl)
    exact absurd hdecided (halone hcontrol.1 (hsource .primary (.primary _) hpending))
  | race =>
    rw [hw] at hcontrol
    obtain ⟨hs, -⟩ := hcontrol
    have hpending := h.awaits.pending hqueue (by rw [hw]; rfl)
    have hlinked := h.wired.linked
    rw [hs] at hlinked
    have hnone : ∀ side, s.jobs.value (.entrant side) = none := by
      intro side
      have htagged := (hlinked _ _ _ (.first side)).pending hqueue hpending
      have hsettled := (hlinked _ _ _ (.tagged side)).pending hqueue htagged
      cases side with
      | primary => exact hsource .primary (.primary _) hsettled
      | hedge => exact hsource .hedge (hs ▸ .hedge) hsettled
    exact absurd hdecided (hraced .primary hs (hnone .primary) fun settled hside =>
      absurd hside (hunsettled .hedge (hnone .hedge) settled))
  | other side first =>
    rw [hw] at hcontrol
    obtain ⟨hs, -, hfirst, hlosing⟩ := hcontrol
    have hpending := h.awaits.pending hqueue (by rw [hw]; rfl)
    have hnone : s.jobs.value (.entrant side.other) = none := by
      cases side with
      | primary => exact hsource .hedge (hs ▸ .hedge) hpending
      | hedge => exact hsource .primary (.primary _) hpending
    refine absurd hdecided (hraced side.other hs hnone fun settled hside => ?_)
    rw [Side.other_other, SettledAs, hfirst] at hside
    cases hside
    exact hlosing
  | primaryFinal =>
    rw [hw] at hcontrol
    obtain ⟨settled, hside, -⟩ := hcontrol.2.2 .primary
    have hpending := h.awaits.pending hqueue (by rw [hw]; rfl)
    exact absurd hside (hunsettled .primary (hsource .primary (.primary _) hpending) settled)
  | done result => exact ⟨result, hw⟩

/-- An entrant's promise, whichever way it is settled, is handled: the handlers wait for
it, or are queued, or have kept the settlement as data. -/
def Handled (s : State α ε) (side : Side) : Prop :=
  match s.jobs.value (.entrant side) with
  | none => .settle side ∈ s.jobs.reactions (.entrant side)
  | some v => (.settle side, v) ∈ s.jobs.queue ∨ s.jobs.value (.settled side) = some v

theorem Safe.handled (h : Safe isWin s) {side : Side}
    (hlink : Link s.hedgeStarted (.entrant side) (.settle side) (.settled side)) :
    Handled s side := by
  have hlinked := h.wired.linked _ _ _ hlink
  unfold Handled
  cases hvalue : s.jobs.value (.entrant side) with
  | none => exact hlinked.waits hvalue
  | some v =>
    cases hsettled : s.jobs.value (.settled side) with
    | none => exact .inl (hlinked.queued v hvalue hsettled)
    | some w =>
      have hsame : s.jobs.value (.entrant side) = some w := h.wired.sound _ _ hsettled
      rw [hvalue] at hsame
      exact .inr hsame.symm

end Events

end Race

open Race in
/-- **The hedge race is safe.** After any events in any order: the hedge was started at
most once, after the delay and with the primary unsettled; both entrants are handled.
What the race has returned is the settlement of the reported side; where it does not win,
it is the primary's, and no settlement wins; and the loser, where a hedge was started, is
settled or has been aborted. Where no job is queued, a decided race has returned. -/
theorem hedge_race_safe {α ε : Type*} (isWin : Settled α ε → Bool) (events : List (Event α ε)) :
    let s := run isWin events
    starts s.log = (if s.hedgeStarted then [.startHedge true false] else []) ∧
      Handled s .primary ∧ (s.hedgeStarted = true → Handled s .hedge) ∧
      (∀ result, s.waiting = .done result →
        SettledAs s result.winner result.settled ∧
          (isWin result.settled = false → result.winner = .primary ∧
            ∀ side settled, SettledAs s side settled → isWin settled = false) ∧
          (s.hedgeStarted = true → result.loser = some result.winner.other ∧
            (.abort result.winner.other ∈ s.log ∨
              ∃ settled, SettledAs s result.winner.other settled))) ∧
      (s.jobs.queue = [] → Decided isWin s → Returned s) := by
  intro s
  have h : Safe isWin s := Safe.run isWin events
  refine ⟨h.starts_log, h.handled (.primary _), fun hs => h.handled (hs ▸ .hedge), ?_, h.returned⟩
  intro result hresult
  have hcontrol := h.control
  unfold Control at hcontrol
  rw [hresult] at hcontrol
  obtain ⟨-, hsettled, hlost, hloser, -, -⟩ := hcontrol
  refine ⟨hsettled, fun hlosing => ⟨(hlost hlosing).1, fun side settled hside => ?_⟩, hloser⟩
  cases side with
  | primary =>
    -- the reported settlement is the primary's
    rw [(hlost hlosing).1, SettledAs, hside] at hsettled
    cases hsettled
    exact hlosing
  | hedge =>
    cases hs : s.hedgeStarted with
    | false =>
      rw [SettledAs, h.wired.absent hs] at hside
      cases hside
    | true =>
      obtain ⟨other, hother, hlosing'⟩ := (hlost hlosing).2 hs
      rw [SettledAs, hside] at hother
      cases hother
      exact hlosing'

end LlmRelay
